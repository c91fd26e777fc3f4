import PMKVLab.Runner.BuildSubmission

/-! The options of a submission: what the config file and the command line make of them. A
line of the config file is cleaned before it is split, an option of the command line is not.
-/

namespace PMKVLab.Runner

open PMKVLab.Library

-----------------------------------------------------------------------------------------
-- Lines of the config file
-----------------------------------------------------------------------------------------

/-- A line without its comment and the whitespace around it. -/
def cleanLine (line : List Char) : List Char :=
  strip isWhitespace (line.takeWhile (· != '#'))

/-- The lines of a config file that are not blank without comments and whitespace. -/
def optionLines (config : String) : List (List Char) :=
  contents cleanLine config.toList

/-- The text in front of the first `=` and the text behind it. -/
def keyValue (o : List Char) : String × String :=
  (String.ofList (o.takeWhile (· != '=')), String.ofList (o.dropWhile (· != '=')).tail)

/-- The value of the last text with a key. -/
def lastValue (texts : List (List Char)) (k : String) : Option String :=
  (texts.map keyValue).reverse.lookup k

/-- The regular expression and `strip` leave the clean line, with or without a line feed. -/
theorem strippedLine_eq {line : List Char} (whole : '\n' ∉ line)
    : strippedLine line = cleanLine line ∧ strippedLine (line ++ ['\n']) = cleanLine line := by
  have removed {rest : List Char} (ends : rest = [] ∨ rest = ['\n'])
      : strippedLine (line ++ rest)
        = strip isWhitespace (line.takeWhile (· != '#') ++ rest) := by
    unfold strippedLine
    rw [Regex.removeAll_toLineEnd '#' true whole ends (by decide)]
  constructor
  · have plain := removed (.inl rfl)
    rwa [List.append_nil, List.append_nil] at plain
  · rw [removed (.inr rfl), strip_append_singleton (by decide)]
    rfl

/-- Blank lines are skipped. -/
theorem foldlM_readConfigLine (o : Bool) (lines : List (List Char))
    (optionsDict : List (String × String))
    : lines.foldlM (readConfigLine o) optionsDict
      = ((lines.map strippedLine).filter fun line => !line.isEmpty).foldlM (takeLine o)
          optionsDict := by
  induction lines generalizing optionsDict with
  | nil => rfl
  | cons line rest ih =>
      rw [List.foldlM_cons, List.map_cons, List.filter_cons, readConfigLine]
      cases blank : (strippedLine line).isEmpty with
      | true => exact ih optionsDict
      | false =>
          rw [if_neg Bool.false_ne_true, Bool.not_false, if_pos rfl, List.foldlM_cons]
          exact bind_congr fun next => ih next

/-- The config file is read through its clean lines. -/
theorem readConfig_some (o : Bool) (config : String)
    : readConfig o (some config) = (optionLines config).foldlM (takeLine o) [] := by
  have lines := filter_readlines (rfl : cleanLine [] = []) (fun line => strippedLine_eq)
    config.toList
  rw [readConfig, foldlM_readConfigLine, lines]
  rfl

-----------------------------------------------------------------------------------------
-- Assignments
-----------------------------------------------------------------------------------------

theorem assignOption_of_mem {o : List Char} (assigns : '=' ∈ o)
    (optionsDict : List (String × String))
    : assignOption optionsDict o = .ok (setItem (keyValue o).1 (keyValue o).2 optionsDict) := by
  obtain ⟨key, value, rfl, fresh⟩ := List.eq_append_cons_of_mem assigns
  have passes : ∀ character ∈ key, (character != '=') = true := by
    intro character member
    simpa using ne_of_mem_of_not_mem member fresh
  have behind : (key ++ '=' :: value).dropWhile (· != '=') = '=' :: value := by
    rw [List.dropWhile_append_of_pos passes]
    rfl
  unfold assignOption splitOption keyValue
  rw [behind]
  rfl

/-- Options that all have an `=` are assigned in their order. -/
theorem foldlM_assignOption {texts : List (List Char)} (assign : ∀ o ∈ texts, '=' ∈ o)
    (optionsDict : List (String × String))
    : texts.foldlM assignOption optionsDict
      = .ok (updateItems optionsDict (texts.map keyValue)) := by
  induction texts generalizing optionsDict with
  | nil => rfl
  | cons o rest ih =>
      rw [List.forall_mem_cons] at assign
      rw [List.foldlM_cons, assignOption_of_mem assign.1]
      exact ih assign.2 _

/-- Without a bound `o` the first line raises. -/
theorem foldlM_takeLine_false {lines : List (List Char)} (some : lines ≠ [])
    (optionsDict : List (String × String))
    : lines.foldlM (takeLine false) optionsDict
      = .error ⟨.unboundLocalError, "local variable 'o' referenced before assignment"⟩ := by
  cases lines with
  | nil => exact absurd rfl some
  | cons line rest => rfl

theorem takeLine_true : takeLine true = assignOption := rfl

-----------------------------------------------------------------------------------------
-- Submissions
-----------------------------------------------------------------------------------------

/-- All files that the specification asks for can be read. -/
structure Readable (world : World) (directory : world.Tree) (spec : LabSpec)
    (inputFiles : List String) : Prop where
  listed : (spec .inputFiles).iterate = .ok (inputFiles.map .str)
  read : ∀ f ∈ inputFiles, ∃ contents,
    world.read (world.labInfo directory).2 f = some (.ok contents)

/-- All listed names are texts and no variable is rejected. -/
def Importable (environ : Environ) (spec : LabSpec) : Prop :=
  ∃ listed : List String, (spec .env).iterate = .ok (listed.map .str)
    ∧ ∀ name ∈ listed, ¬ Rejected environ name

theorem foldlM_readInputFile {world : World} {tree : world.Tree} {inputFiles : List String}
    (read : ∀ f ∈ inputFiles, ∃ contents, world.read tree f = some (.ok contents))
    (inputs : Inputs)
    : ∃ files, (inputFiles.map Py.str).foldlM (readInputFile world tree) inputs
      = .ok ⟨files, inputs.o || !inputFiles.isEmpty⟩ := by
  induction inputFiles generalizing inputs with
  | nil => exact ⟨inputs.files, by simp [pure, Except.pure]⟩
  | cons f rest ih =>
      rw [List.forall_mem_cons] at read
      obtain ⟨⟨contents, found⟩, later⟩ := read
      have first : readInputFile world tree inputs (.str f)
          = .ok ⟨setItem f contents inputs.files, true⟩ := by
        have path : pathOf (.str f) = .ok f := rfl
        unfold readInputFile
        rw [path, except_ok_bind, found]
        rfl
      obtain ⟨files, run⟩ := ih later ⟨setItem f contents inputs.files, true⟩
      refine ⟨files, ?_⟩
      rw [List.map_cons, List.foldlM_cons, first]
      refine Eq.trans run ?_
      simp

theorem importable_iff {environ : Environ} {spec : LabSpec}
    : Importable environ spec ↔ ∃ env, importEnv environ spec = .ok env := by
  unfold Importable importEnv
  constructor
  · rintro ⟨listed, iterated, passes⟩
    obtain ⟨env, run⟩ := (import_ok_iff (listed.map Py.str) []).mpr ⟨listed, rfl, passes⟩
    exact ⟨env, except_bind_eq_ok.mpr ⟨_, iterated, run⟩⟩
  · rintro ⟨env, run⟩
    obtain ⟨names, iterated, loop⟩ := except_bind_eq_ok.mp run
    obtain ⟨listed, rfl, passes⟩ := (import_ok_iff names []).mp ⟨env, loop⟩
    exact ⟨listed, iterated, passes⟩

/-- The two loops over options. -/
def parseAll (o : Bool) (config : String) (options : List String)
    : Except Raised (List (String × String)) :=
  (optionLines config).foldlM (takeLine o) []
    >>= (options.map String.toList).foldlM assignOption

/-- The options that the lines of the config file and then those of the command line assign. -/
def assignedOptions (config : String) (options : List String) : List (String × String) :=
  updateItems (updateItems [] ((optionLines config).map keyValue))
    ((options.map String.toList).map keyValue)

section Parse

variable {o : Bool} {config : String} {options : List String}

theorem parseAll_ok (bound : o = true ∨ optionLines config = [])
    (configured : ∀ l ∈ optionLines config, '=' ∈ l) (given : ∀ o ∈ options, '=' ∈ o.toList)
    : parseAll o config options = .ok (assignedOptions config options) := by
  have fromFile : (optionLines config).foldlM (takeLine o) []
      = .ok (updateItems [] ((optionLines config).map keyValue)) := by
    rcases bound with rfl | none
    · exact foldlM_assignOption configured []
    · rw [none]
      rfl
  have given : ∀ text ∈ options.map String.toList, '=' ∈ text := by
    simpa using given
  rw [parseAll, fromFile]
  exact foldlM_assignOption given _

theorem parseAll_unbound (filled : optionLines config ≠ [])
    : parseAll false config options
      = .error ⟨.unboundLocalError, "local variable 'o' referenced before assignment"⟩ := by
  rw [parseAll, foldlM_takeLine_false filled]
  rfl

/-- The last option of the command line counts, and then the last line of the config file. -/
theorem lookup_assignedOptions (config : String) (options : List String) (k : String)
    : (assignedOptions config options).lookup k
      = (lastValue (options.map String.toList) k).or (lastValue (optionLines config) k) := by
  rw [assignedOptions, lookup_updateItems_eq, lookup_updateItems_eq, List.lookup_nil,
    Option.or_none]
  rfl

theorem assignedOptions_nodup (config : String) (options : List String)
    : ((assignedOptions config options).map Prod.fst).Nodup :=
  updateItems_nodup _ (updateItems_nodup _ List.nodup_nil)

/-- An option without `#`, line breaks and surrounding whitespace. -/
structure PlainOption (o : String) : Prop where
  assigns : '=' ∈ o.toList
  noComment : '#' ∉ o.toList
  noLineFeed : '\n' ∉ o.toList
  noReturn : '\r' ∉ o.toList
  trimmed : strip isWhitespace o.toList = o.toList

/-- A line behind the config file is one more option line. -/
theorem optionLines_append {o : String} (plain : PlainOption o) (config : String)
    : optionLines (config ++ "\n" ++ o) = optionLines config ++ [o.toList] := by
  have clean : cleanLine o.toList = o.toList := by
    have all : ∀ character ∈ o.toList, (character != '#') = true := by
      intro character member
      simpa using ne_of_mem_of_not_mem member plain.noComment
    rw [cleanLine, List.takeWhile_eq_self_iff.mpr all, plain.trimmed]
  have filled : cleanLine o.toList ≠ [] := by
    rw [clean]
    exact List.ne_nil_of_mem plain.assigns
  have split : (config ++ "\n" ++ o).toList = config.toList ++ '\n' :: o.toList := by simp
  rw [optionLines, split, contents_append_cons rfl,
    contents_of_line plain.noReturn plain.noLineFeed filled, clean]
  rfl

/-- An option in the config file is an option in front of the command line. -/
theorem parseAll_append {text : String} (plain : PlainOption text)
    (bound : o = true ∨ optionLines config ≠ [])
    : parseAll o (config ++ "\n" ++ text) options = parseAll o config (text :: options) := by
  cases o with
  | true =>
      unfold parseAll
      rw [optionLines_append plain, List.foldlM_append, takeLine_true, bind_assoc]
      refine bind_congr fun fromFile => ?_
      rw [List.foldlM_cons, List.map_cons, List.foldlM_cons, bind_assoc]
      rfl
  | false =>
      have filled := bound.resolve_left Bool.false_ne_true
      have more : optionLines (config ++ "\n" ++ text) ≠ [] := by simp [optionLines_append plain]
      rw [parseAll_unbound filled, parseAll_unbound more]

end Parse

section Build

variable {world : World} {directory : world.Tree} {environ : Environ} {spec : LabSpec}
  {inputFiles : List String}

/-- With readable input files, the import and the loops over options decide. -/
theorem buildSubmission_readable (loaded : loadedFrom world directory = .ok spec)
    (readable : Readable world directory spec inputFiles) (environ : Environ)
    : ∃ files, ∀ config options,
      buildSubmission world directory environ (some config) options
        = importEnv environ spec >>= fun env =>
            parseAll (!inputFiles.isEmpty) config options >>= fun optionsDict =>
              .ok ⟨spec, filesDict files, filesDict env, filesDict optionsDict⟩ := by
  obtain ⟨files, run⟩ := foldlM_readInputFile readable.read {}
  refine ⟨files, fun config options => ?_⟩
  have read : readInputs world (world.labInfo directory).2 spec
      = .ok ⟨files, !inputFiles.isEmpty⟩ := by
    rw [readInputs, readable.listed]
    exact run
  unfold buildSubmission parseAll
  simp only [loaded, except_ok_bind, read, readConfig_some, List.foldlM_map, bind_assoc]
  rfl

/-- The options of a submission: each key has the value of the last option of the command line
with it, or else of the last line of the config file, and there are no other keys.
-/
def HoldsOptions (sub : Submission) (config : String) (options : List String) : Prop :=
  ∃ entries, sub.options = filesDict entries ∧ (entries.map Prod.fst).Nodup
    ∧ ∀ k, entries.lookup k
      = (lastValue (options.map String.toList) k).or (lastValue (optionLines config) k)

variable {config : String} {options : List String}

theorem isEmpty_not_iff : (!inputFiles.isEmpty) = true ↔ inputFiles ≠ [] := by
  simp

/-- The submission is built when the variables are imported and `o` is bound where it is read.
-/
theorem buildSubmission_holds_iff (loaded : loadedFrom world directory = .ok spec)
    (readable : Readable world directory spec inputFiles)
    (configured : ∀ l ∈ optionLines config, '=' ∈ l) (given : ∀ o ∈ options, '=' ∈ o.toList)
    : (∃ sub, buildSubmission world directory environ (some config) options = .ok sub
        ∧ HoldsOptions sub config options)
      ↔ Importable environ spec ∧ (inputFiles ≠ [] ∨ optionLines config = []) := by
  obtain ⟨files, build⟩ := buildSubmission_readable loaded readable environ
  rw [importable_iff]
  constructor
  · rintro ⟨sub, built, _⟩
    rw [build] at built
    obtain ⟨env, imported, built⟩ := except_bind_eq_ok.mp built
    refine ⟨⟨env, imported⟩, ?_⟩
    by_contra neither
    rw [not_or, not_not] at neither
    obtain ⟨rfl, filled⟩ := neither
    rw [List.isEmpty_nil, Bool.not_true, parseAll_unbound filled] at built
    cases built
  · rintro ⟨⟨env, imported⟩, fits⟩
    refine ⟨⟨spec, filesDict files, filesDict env, filesDict (assignedOptions config options)⟩,
      ?_, assignedOptions config options, rfl, assignedOptions_nodup config options,
      lookup_assignedOptions config options⟩
    rw [build, imported, except_ok_bind,
      parseAll_ok (fits.imp_left isEmpty_not_iff.mpr) configured given]
    rfl

/-- Without input files and option lines, only the command line takes an option. -/
theorem buildSubmission_differs (loaded : loadedFrom world directory = .ok spec)
    (readable : Readable world directory spec []) (importable : Importable environ spec)
    (blank : optionLines config = []) (given : ∀ o ∈ options, '=' ∈ o.toList) {o : String}
    (plain : PlainOption o)
    : buildSubmission world directory environ (some (config ++ "\n" ++ o)) options
      ≠ buildSubmission world directory environ (some config) (o :: options) := by
  obtain ⟨files, build⟩ := buildSubmission_readable loaded readable environ
  obtain ⟨env, imported⟩ := importable_iff.mp importable
  have more : optionLines (config ++ "\n" ++ o) ≠ [] := by simp [optionLines_append plain]
  have all : ∀ text ∈ o :: options, '=' ∈ text.toList :=
    List.forall_mem_cons.mpr ⟨plain.assigns, given⟩
  have none : ∀ l ∈ optionLines config, '=' ∈ l := by simp [blank]
  rw [build, build, imported, except_ok_bind, except_ok_bind, List.isEmpty_nil, Bool.not_true,
    parseAll_unbound more, parseAll_ok (.inr blank) none all]
  intro same
  cases same

/-- Otherwise the config file and the command line agree on it. -/
theorem buildSubmission_agrees (loaded : loadedFrom world directory = .ok spec)
    (readable : Readable world directory spec inputFiles)
    (fits : ¬ Importable environ spec ∨ inputFiles ≠ [] ∨ optionLines config ≠ []) {o : String}
    (plain : PlainOption o)
    : buildSubmission world directory environ (some (config ++ "\n" ++ o)) options
      = buildSubmission world directory environ (some config) (o :: options) := by
  obtain ⟨files, build⟩ := buildSubmission_readable loaded readable environ
  rw [build, build]
  cases imported : importEnv environ spec with
  | error raised => rfl
  | ok env =>
      have later := fits.resolve_left (not_not.mpr (importable_iff.mpr ⟨env, imported⟩))
      rw [except_ok_bind, except_ok_bind,
        parseAll_append plain (later.imp_left isEmpty_not_iff.mpr)]

end Build

/-- With readable input files and an `=` in every option, a submission with the right options
is built exactly when the variables can be imported, and there is an input file or nothing to
read in the config file; and an option has the same effect in the config file as in front of
the command line exactly when the variables cannot be imported, or there is an input file, or
the config file raises anyway. Witness: the log message in the config file's loop reads a
variable that only the loop over the input files binds.
-/
theorem config_options_iff (world : World) (directory : world.Tree) (environ : Environ)
    (config : String) (options : List String) (spec : LabSpec) (inputFiles : List String)
    (loaded : loadedFrom world directory = .ok spec)
    (readable : Readable world directory spec inputFiles)
    (configured : ∀ l ∈ optionLines config, '=' ∈ l) (given : ∀ o ∈ options, '=' ∈ o.toList)
    : ((∃ sub, buildSubmission world directory environ (some config) options = .ok sub
          ∧ HoldsOptions sub config options)
        ↔ Importable environ spec ∧ (inputFiles ≠ [] ∨ optionLines config = []))
      ∧ ((∀ o, PlainOption o
          → buildSubmission world directory environ (some (config ++ "\n" ++ o)) options
            = buildSubmission world directory environ (some config) (o :: options))
        ↔ ¬ Importable environ spec ∨ inputFiles ≠ [] ∨ optionLines config ≠ []) := by
  refine ⟨buildSubmission_holds_iff loaded readable configured given, fun same => ?_,
    fun fits o plain => buildSubmission_agrees loaded readable fits plain⟩
  by_contra neither
  simp only [not_or, not_not] at neither
  obtain ⟨importable, rfl, blank⟩ := neither
  have plain : PlainOption "a=b" := by constructor <;> decide
  exact buildSubmission_differs loaded readable importable blank given plain
    (same "a=b" plain)

/-- A spec with an input file takes an option of the config file. -/
theorem config_options_read
    : ∃ sub, buildSubmission (listing [] ["a.cc"]) false [] (some "k=v # c\n") ["j=w"] = .ok sub
        ∧ HoldsOptions sub "k=v # c\n" ["j=w"] := by
  refine (config_options_iff (listing [] ["a.cc"]) false [] "k=v # c\n" ["j=w"] _ ["a.cc"] rfl
    ⟨rfl, fun _ _ => ⟨"", rfl⟩⟩ (by decide) (by decide)).1.mpr ⟨⟨[], rfl, ?_⟩, .inl ?_⟩
  · simp
  · simp

/-- Without input files an option of the config file raises `UnboundLocalError`, although it
is taken from the command line.
-/
theorem config_option_unbound
    : (∃ spec, loadedFrom (listing [] []) false = .ok spec
          ∧ Readable (listing [] []) false spec [] ∧ Importable [] spec)
      ∧ (∀ l ∈ optionLines "k=v\n", '=' ∈ l)
      ∧ buildSubmission (listing [] []) false [] (some "k=v\n") []
        = .error ⟨.unboundLocalError, "local variable 'o' referenced before assignment"⟩
      ∧ ∃ sub, buildSubmission (listing [] []) false [] (some "") ["k=v"] = .ok sub
        ∧ sub.options = .dict [("k", .str "v")] := by
  refine ⟨⟨_, rfl, ⟨rfl, ?_⟩, [], rfl, ?_⟩, by decide, rfl, _, rfl, rfl⟩
  · intro f member
    cases member
  · intro name member
    cases member

end PMKVLab.Runner
