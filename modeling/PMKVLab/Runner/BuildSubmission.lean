import PMKVLab.Library.Regex
import PMKVLab.Library.TextLines
import PMKVLab.Runner.PristineRuns

/-! `build_submission`: the specification of a directory, its input files, the environment
variables that it lists, and the options of the config file and of the command line. Only
variables that a regular expression accepts are taken.
-/

namespace PMKVLab.Runner

open PMKVLab.Library

-----------------------------------------------------------------------------------------
-- The input files
-----------------------------------------------------------------------------------------

/-- `sys.exit(1)`. -/
def systemExit : Raised := ⟨.exit "SystemExit", "1"⟩

/-- The variables of the loop over the input files: the files, and whether `o` is bound,
which the config file's loop reads again.
-/
structure Inputs where
  files : List (String × String) := []
  o : Bool := false

/-- One round of the loop over the input files. -/
def readInputFile (world : World) (tree : world.Tree) (inputs : Inputs) (f : Py)
    : Except Raised Inputs := do
  let fullPath ← pathOf f
  match world.read tree fullPath with
  | some (.ok contents) => return ⟨setItem fullPath contents inputs.files, true⟩
  | some (.error raised) => if raised.caught then .error systemExit else .error raised
  | none => .error systemExit

/-- The files that the specification of a directory asks for. -/
def readInputs (world : World) (tree : world.Tree) (spec : LabSpec) : Except Raised Inputs := do
  (← (spec .inputFiles).iterate).foldlM (readInputFile world tree) {}

-----------------------------------------------------------------------------------------
-- The environment
-----------------------------------------------------------------------------------------

/-- The class `safe_env`. -/
def safeEnv : String := "[a-zA-Z0-9_\\-\\. ]"

def safeCharacter (character : Char) : Bool :=
  character.isAlphanum || ['_', '-', '.', ' '].contains character

/-- The pattern `^{safe_env}*$`. -/
def safePattern : List (Regex.Item Char) := [.start, .many safeCharacter, .stop]

/-- The exception for a variable whose value the pattern does not match. -/
def rejectedValue (e v : String) : Raised :=
  ⟨.exception, "Environment variable '" ++ e ++ "' has a potentially unsafe value: '" ++ v
    ++ "'.  Imported environment variables can only contain charecters from " ++ safeEnv ++ "."⟩

/-- One round of the loop over `spec.env`; looking up a name needs a text. -/
def importVariable (environ : Environ) (env : List (String × String)) (e : Py)
    : Except Raised (List (String × String)) := do
  let name ← e.text "str expected"
  match environ.lookup name with
  | some v =>
      if Regex.isMatch '\n' safePattern v.toList then return setItem name v env
      else .error (rejectedValue name v)
  | none => return env

def importEnv (environ : Environ) (spec : LabSpec) : Except Raised (List (String × String)) := do
  (← (spec .env).iterate).foldlM (importVariable environ) []

-----------------------------------------------------------------------------------------
-- The options
-----------------------------------------------------------------------------------------

/-- The characters that `str.strip` removes. -/
def isWhitespace (character : Char) : Bool :=
  let code := character.toNat
  (9 ≤ code && code ≤ 13) || (28 ≤ code && code ≤ 32) || (0x2000 ≤ code && code ≤ 0x200a)
    || [0x85, 0xa0, 0x1680, 0x2028, 0x2029, 0x202f, 0x205f, 0x3000].contains code

/-- `re.sub("#.*", "", l)` and `l.strip()`. -/
def strippedLine (l : List Char) : List Char :=
  strip isWhitespace (Regex.removeAll '\n' (Regex.toLineEnd '\n' '#') true 0 l)

/-- `k, v = o.split("=", maxsplit=1)`. -/
def splitOption (o : List Char) : Except Raised (String × String) :=
  match o.dropWhile (· != '=') with
  | [] => .error ⟨.valueError, "not enough values to unpack (expected 2, got 1)"⟩
  | _ :: v => .ok (String.ofList (o.takeWhile (· != '=')), String.ofList v)

/-- `options_dict[k] = v`. -/
def assignOption (optionsDict : List (String × String)) (o : List Char)
    : Except Raised (List (String × String)) := do
  let (k, v) ← splitOption o
  return setItem k v optionsDict

/-- What the loop over the config file does with a line that is not blank. The message for the
log formats `o`, which only the loop over the input files has bound so far.
-/
def takeLine (o : Bool) (optionsDict : List (String × String)) (l : List Char)
    : Except Raised (List (String × String)) :=
  if o then assignOption optionsDict l
  else .error ⟨.unboundLocalError, "local variable 'o' referenced before assignment"⟩

/-- One round of the loop over the config file. -/
def readConfigLine (o : Bool) (optionsDict : List (String × String)) (l : List Char)
    : Except Raised (List (String × String)) :=
  let l := strippedLine l
  if l.isEmpty then .ok optionsDict else takeLine o optionsDict l

/-- The options of the config file, when it can be read. -/
def readConfig (o : Bool) (config : Option String) : Except Raised (List (String × String)) :=
  match config with
  | some text => (readlines text.toList).foldlM (readConfigLine o) []
  | none => .error ⟨.named "FileNotFoundError", "config"⟩

/-- `build_submission`; `config` is the text of the file `config` in the working directory. -/
def buildSubmission (world : World) (directory : world.Tree) (environ : Environ)
    (config : Option String) (options : List String)
    : Except Raised Submission := do
  let spec ← loadedFrom world directory
  let inputs ← readInputs world (world.labInfo directory).2 spec
  let env ← importEnv environ spec
  let fromFile ← readConfig inputs.o config
  let optionsDict ← options.foldlM (fun optionsDict o => assignOption optionsDict o.toList) fromFile
  return ⟨spec, filesDict inputs.files, filesDict env, filesDict optionsDict⟩

-----------------------------------------------------------------------------------------
-- Imported variables
-----------------------------------------------------------------------------------------

/-- The names that the specification lists. -/
def Listed (spec : LabSpec) (name : String) : Prop :=
  ∃ names, (spec .env).iterate = .ok names ∧ .str name ∈ names

/-- Every character is a letter, a digit, `_`, `-`, `.` or a space. -/
def Safe (value : String) : Prop :=
  ∀ character ∈ value.toList, safeCharacter character = true

/-- What the pattern matches: `$` also matches in front of a line feed at the end. -/
def Accepted (value : String) : Prop :=
  Safe value ∨ ∃ body, value = body ++ "\n" ∧ Safe body

/-- The names in front of the first one that is not a text. -/
def leadingNames : List Py → List String
  | .str name :: rest => name :: leadingNames rest
  | _ => []

theorem isMatch_safePattern_iff (value : String)
    : Regex.isMatch '\n' safePattern value.toList = true ↔ Accepted value := by
  unfold safePattern
  rw [Regex.isMatch_anchored_many]
  refine or_congr Iff.rfl ⟨?_, ?_⟩
  · rintro ⟨body, same, safe⟩
    refine ⟨String.ofList body, ?_, by simpa [Safe] using safe⟩
    rw [← String.toList_inj, same]
    simp
  · rintro ⟨body, rfl, safe⟩
    exact ⟨body.toList, by simp, safe⟩

theorem Safe.accepted {value : String} (safe : Safe value) : Accepted value :=
  .inl safe

section Import

variable {environ : Environ}

/-- A round for a text: a variable that is not set is skipped. -/
theorem importVariable_str (env : List (String × String)) (name : String)
    : importVariable environ env (.str name)
      = match environ.lookup name with
        | some v =>
            if Regex.isMatch '\n' safePattern v.toList then .ok (setItem name v env)
            else .error (rejectedValue name v)
        | none => .ok env :=
  rfl

/-- The listed variable is set to a value that the pattern does not match. -/
def Rejected (environ : Environ) (name : String) : Prop :=
  ∃ v, environ.lookup name = some v ∧ ¬ Accepted v

/-- A variable that is not rejected passes its round. -/
theorem importVariable_passes {name : String} (passes : ¬ Rejected environ name)
    (env : List (String × String))
    : ∃ next, importVariable environ env (.str name) = .ok next := by
  rw [importVariable_str]
  cases found : environ.lookup name with
  | none => exact ⟨env, rfl⟩
  | some v =>
      have accepted : Accepted v := not_not.mp fun other => passes ⟨v, found, other⟩
      exact ⟨setItem name v env, if_pos ((isMatch_safePattern_iff v).mpr accepted)⟩

theorem importVariable_rejects {name : String} (rejected : Rejected environ name)
    (env : List (String × String))
    : ∃ v, importVariable environ env (.str name) = .error (rejectedValue name v) := by
  obtain ⟨v, found, other⟩ := rejected
  refine ⟨v, ?_⟩
  rw [importVariable_str, found]
  exact if_neg fun accepted => other ((isMatch_safePattern_iff v).mp accepted)

/-- The loop raises for the first rejected variable, unless a name that is no text comes
first; by induction on the names.
-/
theorem import_rejects_iff (names : List Py) (env : List (String × String))
    : (∃ name v, names.foldlM (importVariable environ) env = .error (rejectedValue name v))
      ↔ ∃ name ∈ leadingNames names, Rejected environ name := by
  induction names generalizing env with
  | nil =>
      constructor
      · rintro ⟨_, _, raised⟩
        cases raised
      · rintro ⟨_, member, _⟩
        cases member
  | cons e rest ih =>
      rw [List.foldlM_cons]
      cases e with
      | str name =>
          rw [leadingNames, List.exists_mem_cons_iff]
          by_cases rejected : Rejected environ name
          · obtain ⟨v, raised⟩ := importVariable_rejects rejected env
            rw [raised]
            exact ⟨fun _ => .inl rejected, fun _ => ⟨name, v, rfl⟩⟩
          · obtain ⟨next, passed⟩ := importVariable_passes rejected env
            rw [passed]
            exact (ih next).trans (or_iff_right rejected).symm
      | _ =>
          constructor
          · rintro ⟨name, v, raised⟩
            cases congrArg Raised.kind (Except.error.inj raised)
          · rintro ⟨_, member, _⟩
            cases member

/-- An entry after a round is an old one or a listed variable. -/
theorem importVariable_mem {env next : List (String × String)} {e : Py}
    (run : importVariable environ env e = .ok next) {entry : String × String}
    (member : entry ∈ next)
    : entry ∈ env ∨ (e = .str entry.1 ∧ environ.lookup entry.1 = some entry.2) := by
  cases e with
  | str name =>
      rw [importVariable_str] at run
      cases found : environ.lookup name with
      | none =>
          simp only [found] at run
          cases run
          exact .inl member
      | some v =>
          simp only [found] at run
          split at run
          · cases run
            rcases mem_setItem member with rfl | old
            · exact .inr ⟨rfl, found⟩
            · exact .inl old
          · cases run
  | _ => cases run

/-- Every imported variable is listed and has the value that is set, by induction on the
names.
-/
theorem import_mem {names : List Py} {env after : List (String × String)}
    (run : names.foldlM (importVariable environ) env = .ok after) {entry : String × String}
    (member : entry ∈ after)
    : entry ∈ env ∨ (.str entry.1 ∈ names ∧ environ.lookup entry.1 = some entry.2) := by
  induction names generalizing env with
  | nil =>
      cases run
      exact .inl member
  | cons e rest ih =>
      rw [List.foldlM_cons] at run
      obtain ⟨next, first, later⟩ := except_bind_eq_ok.mp run
      rcases ih later with before | ⟨listed, found⟩
      · rcases importVariable_mem first before with old | ⟨rfl, found⟩
        · exact .inl old
        · exact .inr ⟨List.mem_cons_self, found⟩
      · exact .inr ⟨List.mem_cons_of_mem e listed, found⟩

/-- The loop ends normally exactly when all names are texts and no variable is rejected. -/
theorem import_ok_iff (names : List Py) (env : List (String × String))
    : (∃ after, names.foldlM (importVariable environ) env = .ok after)
      ↔ ∃ listed : List String, names = listed.map .str
        ∧ ∀ name ∈ listed, ¬ Rejected environ name := by
  induction names generalizing env with
  | nil => exact ⟨fun _ => ⟨[], rfl, by simp⟩, fun _ => ⟨env, rfl⟩⟩
  | cons e rest ih =>
      rw [List.foldlM_cons]
      constructor
      · rintro ⟨after, run⟩
        obtain ⟨next, first, later⟩ := except_bind_eq_ok.mp run
        obtain ⟨listed, rfl, passes⟩ := (ih next).mp ⟨after, later⟩
        cases e with
        | str name =>
            refine ⟨name :: listed, rfl, List.forall_mem_cons.mpr ⟨fun rejected => ?_, passes⟩⟩
            obtain ⟨v, raised⟩ := importVariable_rejects rejected env
            rw [first] at raised
            cases raised
        | _ => cases first
      · rintro ⟨listed, same, passes⟩
        cases listed with
        | nil => cases same
        | cons name others =>
            obtain ⟨rfl, rfl⟩ := List.cons.inj same
            rw [List.forall_mem_cons] at passes
            obtain ⟨next, first⟩ := importVariable_passes passes.1 env
            obtain ⟨after, later⟩ := (ih next).mpr ⟨others, rfl, passes.2⟩
            exact ⟨after, except_bind_eq_ok.mpr ⟨next, first, later⟩⟩

end Import

-----------------------------------------------------------------------------------------
-- Only the import rejects values
-----------------------------------------------------------------------------------------

/-- The outcome is not an exception of the class that rejects values. -/
def NeverRejects {Value : Type} (outcome : Except Raised Value) : Prop :=
  ∀ raised, outcome = .error raised → raised.kind ≠ .exception

theorem iterate_neverRejects (value : Py) : NeverRejects value.iterate := by
  intro raised failed
  cases value <;> cases failed <;> simp

theorem readInputs_neverRejects (world : World) (tree : world.Tree) (spec : LabSpec)
    : NeverRejects (readInputs world tree spec) := by
  intro raised failed
  unfold readInputs at failed
  cases listed : (spec .inputFiles).iterate with
  | error other =>
      rw [listed] at failed
      cases failed
      exact iterate_neverRejects _ raised listed
  | ok items =>
      rw [listed] at failed
      obtain ⟨f, _, reached, fails⟩ := exists_error_of_foldlM failed
      unfold readInputFile at fails
      cases f with
      | str name =>
          have path : pathOf (.str name) = .ok name := rfl
          rw [path, except_ok_bind] at fails
          split at fails
          · cases fails
          · next other _ =>
            split at fails
            · cases fails
              simp [systemExit]
            · next uncaught =>
              cases fails
              intro same
              exact uncaught (by rw [Raised.caught, same])
          · cases fails
            simp [systemExit]
      | _ =>
          cases fails
          simp

theorem assignOption_neverRejects (optionsDict : List (String × String)) (o : List Char)
    : NeverRejects (assignOption optionsDict o) := by
  intro raised failed
  unfold assignOption splitOption at failed
  split at failed
  · cases failed
    simp
  · cases failed

theorem readConfig_neverRejects (o : Bool) (config : Option String)
    : NeverRejects (readConfig o config) := by
  intro raised failed
  cases config with
  | none =>
      cases failed
      simp
  | some text =>
      obtain ⟨l, _, reached, fails⟩ := exists_error_of_foldlM failed
      unfold readConfigLine at fails
      dsimp only at fails
      split at fails
      · cases fails
      · unfold takeLine at fails
        split at fails
        · exact assignOption_neverRejects reached (strippedLine l) raised fails
        · cases fails
          simp

theorem NeverRejects.bind {Value Result : Type} {outcome : Except Raised Value}
    {next : Value → Except Raised Result} (first : NeverRejects outcome)
    (later : ∀ value, NeverRejects (next value))
    : NeverRejects (outcome >>= next) := by
  intro raised failed
  rcases except_bind_eq_error.mp failed with early | ⟨value, _, late⟩
  · exact first raised early
  · exact later value raised late

theorem neverRejects_foldlM {Item Value : Type} {step : Value → Item → Except Raised Value}
    (each : ∀ value item, NeverRejects (step value item)) (items : List Item) (value : Value)
    : NeverRejects (items.foldlM step value) := by
  intro raised failed
  obtain ⟨item, _, reached, fails⟩ := exists_error_of_foldlM failed
  exact each reached item raised fails

theorem neverRejects_ok {Value : Type} (value : Value)
    : NeverRejects (.ok value : Except Raised Value) :=
  fun _ failed => nomatch failed

theorem NeverRejects.ne {Value : Type} {outcome : Except Raised Value}
    (never : NeverRejects outcome)
    : ¬ ∃ name v, outcome = .error (rejectedValue name v) := by
  rintro ⟨name, v, raised⟩
  exact never _ raised rfl

/-- The input files are read before the variables are imported. -/
def InputsRead (world : World) (directory : world.Tree) (spec : LabSpec) : Prop :=
  ∃ inputs, readInputs world (world.labInfo directory).2 spec = .ok inputs

section Build

variable {world : World} {directory : world.Tree} {environ : Environ} {config : Option String}
  {options : List String} {spec : LabSpec}

/-- The exception of a rejected value comes from the import. -/
theorem buildSubmission_rejects_iff (loaded : loadedFrom world directory = .ok spec)
    : (∃ name v, buildSubmission world directory environ config options
        = .error (rejectedValue name v))
      ↔ InputsRead world directory spec
        ∧ ∃ names, (spec .env).iterate = .ok names
          ∧ ∃ name ∈ leadingNames names, Rejected environ name := by
  constructor
  · rintro ⟨name, v, raised⟩
    rcases except_bind_eq_error.mp raised with failed | ⟨_, same, raised⟩
    · cases loaded.symm.trans failed
    cases loaded.symm.trans same
    rcases except_bind_eq_error.mp raised with failed | ⟨inputs, read, raised⟩
    · exact absurd ⟨name, v, failed⟩ (readInputs_neverRejects world _ spec).ne
    rcases except_bind_eq_error.mp raised with failed | ⟨env, _, raised⟩
    · rcases except_bind_eq_error.mp failed with failed | ⟨names, listed, failed⟩
      · exact absurd ⟨name, v, failed⟩ (iterate_neverRejects _).ne
      · exact ⟨⟨inputs, read⟩, names, listed, (import_rejects_iff names []).mp ⟨name, v, failed⟩⟩
    · have never := (readConfig_neverRejects inputs.o config).bind fun fromFile =>
        (neverRejects_foldlM (fun optionsDict o => assignOption_neverRejects optionsDict o.toList)
          options fromFile).bind fun optionsDict =>
            neverRejects_ok (⟨spec, filesDict inputs.files, filesDict env,
              filesDict optionsDict⟩ : Submission)
      exact absurd ⟨name, v, raised⟩ never.ne
  · rintro ⟨⟨inputs, read⟩, names, listed, rejected⟩
    obtain ⟨name, v, raised⟩ := (import_rejects_iff names []).mpr rejected
    have imported : importEnv environ spec = .error (rejectedValue name v) :=
      except_bind_eq_error.mpr (.inr ⟨names, listed, raised⟩)
    exact ⟨name, v, except_bind_eq_error.mpr (.inr ⟨spec, loaded,
      except_bind_eq_error.mpr (.inr ⟨inputs, read, except_bind_eq_error.mpr (.inl imported)⟩)⟩)⟩

/-- The variables of a submission are listed and set. -/
theorem buildSubmission_env (loaded : loadedFrom world directory = .ok spec) {sub : Submission}
    (built : buildSubmission world directory environ config options = .ok sub)
    : ∃ env, sub.env = filesDict env
      ∧ ∀ entry ∈ env, Listed spec entry.1 ∧ environ.lookup entry.1 = some entry.2 := by
  obtain ⟨_, same, built⟩ := except_bind_eq_ok.mp built
  cases loaded.symm.trans same
  obtain ⟨inputs, _, built⟩ := except_bind_eq_ok.mp built
  obtain ⟨env, imported, built⟩ := except_bind_eq_ok.mp built
  obtain ⟨fromFile, _, built⟩ := except_bind_eq_ok.mp built
  obtain ⟨optionsDict, _, built⟩ := except_bind_eq_ok.mp built
  cases built
  obtain ⟨names, listed, run⟩ := except_bind_eq_ok.mp imported
  refine ⟨env, rfl, fun entry member => ?_⟩
  rcases import_mem run member with old | ⟨inList, found⟩
  · cases old
  · exact ⟨⟨names, listed, inList⟩, found⟩

/-- Only safe values are imported: those of a submission are safe, and a value with another
character is what makes it raise.
-/
structure SafeImports (world : World) (directory : world.Tree) (environ : Environ)
    (config : Option String) (options : List String) (spec : LabSpec) : Prop where
  returned : ∀ sub, buildSubmission world directory environ config options = .ok sub
    → ∃ env, sub.env = filesDict env ∧ ∀ entry ∈ env, Listed spec entry.1 ∧ Safe entry.2
  raised : (∃ name v, buildSubmission world directory environ config options
      = .error (rejectedValue name v))
    ↔ ∃ name v, Listed spec name ∧ environ.lookup name = some v ∧ ¬ Safe v

theorem mem_of_mem_leadingNames {names : List Py} {name : String}
    (member : name ∈ leadingNames names)
    : .str name ∈ names := by
  induction names with
  | nil => cases member
  | cons e rest ih =>
      cases e with
      | str first =>
          rcases List.mem_cons.mp member with rfl | later
          · exact List.mem_cons_self
          · exact List.mem_cons_of_mem _ (ih later)
      | _ => cases member

/-- Imports are safe exactly when every listed variable that is set has a safe value, or the
input files are read and a listed variable in front of the first name that is no text has a
character that is not safe and not just a line feed at the end. Witness: `$` also matches in
front of a line feed at the end of a value, and the pattern lets nothing else through.
-/
theorem safeImports_iff (world : World) (directory : world.Tree) (environ : Environ)
    (config : Option String) (options : List String) (spec : LabSpec)
    (loaded : loadedFrom world directory = .ok spec)
    : SafeImports world directory environ config options spec
      ↔ (∀ name v, Listed spec name → environ.lookup name = some v → Safe v)
        ∨ (InputsRead world directory spec
          ∧ ∃ names, (spec .env).iterate = .ok names
            ∧ ∃ name ∈ leadingNames names, Rejected environ name) := by
  have onlyImport
      : (∃ name v, buildSubmission world directory environ config options
          = .error (rejectedValue name v)) ↔ _ :=
    buildSubmission_rejects_iff loaded
  constructor
  · intro imports
    by_cases safe : ∀ name v, Listed spec name → environ.lookup name = some v → Safe v
    · exact .inl safe
    · simp only [not_forall] at safe
      obtain ⟨name, v, listed, found, bad⟩ := safe
      exact .inr (onlyImport.mp (imports.raised.mpr ⟨name, v, listed, found, bad⟩))
  · rintro (safe | rejected)
    · constructor
      · intro sub built
        obtain ⟨env, same, imported⟩ := buildSubmission_env loaded built
        refine ⟨env, same, fun entry member => ?_⟩
        obtain ⟨listed, found⟩ := imported entry member
        exact ⟨listed, safe entry.1 entry.2 listed found⟩
      · constructor
        · intro raised
          obtain ⟨_, names, listed, name, member, v, found, bad⟩ := onlyImport.mp raised
          exact absurd (safe name v ⟨names, listed, mem_of_mem_leadingNames member⟩ found).accepted
            bad
        · rintro ⟨name, v, listed, found, bad⟩
          exact absurd (safe name v listed found) bad
    · obtain ⟨name, v, raised⟩ := onlyImport.mpr rejected
      constructor
      · intro sub built
        cases raised.symm.trans built
      · refine ⟨fun _ => ?_, fun _ => ⟨name, v, raised⟩⟩
        obtain ⟨_, names, listed, name, member, v, found, bad⟩ := rejected
        exact ⟨name, v, ⟨names, listed, mem_of_mem_leadingNames member⟩, found,
          fun safe => bad safe.accepted⟩

end Build

/-- A world whose `lab.py` lists variables and input files; all files can be read. -/
def listing (env inputFiles : List String) : World :=
  { answering (fun _ => false) with
    labInfo := fun tree =>
      (.ok fun name =>
        if name = "env" then some (.list (env.map .str))
        else if name = "input_files" then some (.list (inputFiles.map .str))
        else answerLab tree name,
        tree)
    read := fun _ _ => some (.ok "") }

/-- A variable with a safe value is imported. -/
theorem safeImports_plain
    : ∃ spec, loadedFrom (listing ["A"] ["a.cc"]) false = .ok spec
        ∧ SafeImports (listing ["A"] ["a.cc"]) false [("A", "a-1")] (some "") [] spec := by
  refine ⟨_, rfl, (safeImports_iff _ _ _ _ _ _ rfl).mpr (.inl fun name v _ found => ?_)⟩
  have value : v = "a-1" := by
    by_cases same : name = "A"
    · subst same
      exact (Option.some.inj found).symm
    · rw [List.lookup_cons, beq_false_of_ne same] at found
      cases found
  subst value
  have all : "a-1".toList.all safeCharacter = true := by decide
  exact List.all_eq_true.mp all

/-- A value with a line feed at its end is imported. -/
theorem lineFeed_imported
    : ∃ spec sub, loadedFrom (listing ["A"] ["a.cc"]) false = .ok spec
        ∧ buildSubmission (listing ["A"] ["a.cc"]) false [("A", "a\n")] (some "") [] = .ok sub
        ∧ sub.env = .dict [("A", .str "a\n")]
        ∧ ¬ SafeImports (listing ["A"] ["a.cc"]) false [("A", "a\n")] (some "") [] spec := by
  refine ⟨_, _, rfl, rfl, rfl, fun imports => ?_⟩
  have bad : ¬ Safe "a\n" := by
    intro safe
    have lineFeed : safeCharacter '\n' = true := safe '\n' (by decide)
    cases lineFeed
  obtain ⟨name, v, raised⟩ := imports.raised.mpr
    ⟨"A", "a\n", ⟨[.str "A"], rfl, List.mem_singleton.mpr rfl⟩, rfl, bad⟩
  cases raised

end PMKVLab.Runner
