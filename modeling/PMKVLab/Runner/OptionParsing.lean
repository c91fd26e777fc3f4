import PMKVLab.Runner.RunLocally
import PMKVLab.Runner.Wire

/-! `Submission.parse_options` on well-formed option tables: all options are checked before
any of them changes the environment, and the options that the user gave replace the defaults
of their keys.
-/

namespace PMKVLab.Runner.Submission

open PMKVLab.Library
open Program (lift gets modify run_bind_of_ok run_lift run_gets)

-----------------------------------------------------------------------------------------
-- Option tables
-----------------------------------------------------------------------------------------

/-- Each entry of `valid_options` is a function that returns bindings for every value, or a
table from values to bindings.
-/
structure OptionTable (call : Nat → Py → Except Raised Py) (valid : List (String × Py))
    : Prop where
  entries : ∀ k entry, valid.lookup k = some entry
    → (∃ identity, entry = .function identity
        ∧ ∀ v, ∃ bindings, call identity v = .ok (.dict bindings))
      ∨ (∃ table, entry = .dict table
        ∧ ∀ v row, table.lookup v = some row → ∃ bindings, row = .dict bindings)

/-- The key is not in `valid_options`, or the value is not in the key's table. -/
def Illegal (valid : List (String × Py)) (option : String × Py) : Prop :=
  option.1 ∉ valid.map Prod.fst
    ∨ ∃ table, valid.lookup option.1 = some (.dict table)
      ∧ ∀ v, option.2 = .str v → v ∉ table.map Prod.fst

/-- The entries of a dictionary, none for another value. -/
def dictEntries : Py → List (String × Py)
  | .dict entries => entries
  | _ => []

/-- The environment bindings of an option. -/
def bindings (call : Nat → Py → Except Raised Py) (valid : List (String × Py))
    (option : String × Py)
    : List (String × Py) :=
  match valid.lookup option.1, option.2 with
  | some (.function identity), v => (call identity v).toOption.elim [] dictEntries
  | some (.dict table), .str v => (table.lookup v).elim [] dictEntries
  | _, _ => []

variable {interpreter : Interpreter} {call : Nat → Py → Except Raised Py}
  {valid : List (String × Py)} {option : String × Py}

/-- A legal option is bound by a function or by a row of its table. -/
theorem legal_cases (table : OptionTable call valid) (legal : ¬ Illegal valid option)
    : (∃ identity, valid.lookup option.1 = some (.function identity)
        ∧ call identity option.2 = .ok (.dict (bindings call valid option)))
      ∨ ∃ rows v, valid.lookup option.1 = some (.dict rows) ∧ option.2 = .str v
        ∧ rows.lookup v = some (.dict (bindings call valid option)) := by
  obtain ⟨k, value⟩ := option
  obtain ⟨known, inTable⟩ := not_or.mp legal
  obtain ⟨entry, found⟩ := exists_lookup_of_mem (not_not.mp known)
  rcases table.entries k entry found with ⟨identity, rfl, total⟩ | ⟨rows, rfl, typed⟩
  · obtain ⟨bound, returned⟩ := total value
    refine .inl ⟨identity, found, ?_⟩
    simp [bindings, found, returned, Except.toOption, dictEntries]
  · have member : ∃ v, value = .str v ∧ v ∈ rows.map Prod.fst := by
      by_contra absent
      refine inTable ⟨rows, found, fun v isText member => absent ⟨v, isText, member⟩⟩
    obtain ⟨v, rfl, member⟩ := member
    obtain ⟨row, here⟩ := exists_lookup_of_mem member
    obtain ⟨bound, rfl⟩ := typed v row here
    refine .inr ⟨rows, v, found, rfl, ?_⟩
    simp [bindings, found, here, dictEntries]

-----------------------------------------------------------------------------------------
-- The checks
-----------------------------------------------------------------------------------------

theorem contains_of_lookup {entries : List (String × Py)} {key : String} {value : Py}
    (found : entries.lookup key = some value)
    : (Py.dict entries).contains (.str key) = .ok true := by
  refine congrArg Except.ok ?_
  induction entries with
  | nil => cases found
  | cons entry rest ih =>
      obtain ⟨other, first⟩ := entry
      by_cases same : key = other
      · simp [same]
      · rw [List.lookup_cons, beq_false_of_ne same] at found
        rw [List.any_cons, ih found, Bool.or_true]

/-- A value that can be a key but is none is not in the dictionary. -/
theorem contains_of_absent {entries : List (String × Py)} {value : Py}
    (hashable : value.hashable = true)
    (absent : ∀ v, value = .str v → v ∉ entries.map Prod.fst)
    : (Py.dict entries).contains value = .ok false := by
  cases value with
  | str v =>
      refine congrArg Except.ok (List.any_eq_false.mpr fun entry member same => ?_)
      exact absent v rfl (List.mem_map.mpr ⟨entry, member, by simpa using same⟩)
  | list | dict => cases hashable
  | _ => rfl

theorem getItem_of_lookup {entries : List (String × Py)} {key : String} {value : Py}
    (found : entries.lookup key = some value)
    : (Py.dict entries).getItem (.str key) = .ok value := by
  rw [Py.getItem, found]

/-- A legal option passes its round. -/
theorem checkOption_of_legal (table : OptionTable call valid) (legal : ¬ Illegal valid option)
    : checkOption interpreter (.dict valid) option = .ok () := by
  obtain ⟨k, value⟩ := option
  rcases legal_cases table legal with ⟨identity, found, _⟩ | ⟨rows, v, found, isText, row⟩
  · simp [checkOption, contains_of_lookup found, getItem_of_lookup found, Py.callable, bind,
      Except.bind, pure, Except.pure]
  · cases isText
    simp [checkOption, contains_of_lookup found, getItem_of_lookup found,
      contains_of_lookup row, getItem_of_lookup row, Py.callable, bind, Except.bind, pure,
      Except.pure]

/-- An illegal option raises `BadOptionException`. -/
theorem checkOption_of_illegal (hashable : option.2.hashable = true)
    (illegal : Illegal valid option)
    : ∃ message, checkOption interpreter (.dict valid) option
        = .error ⟨badOptionException, message⟩ := by
  obtain ⟨k, value⟩ := option
  rcases illegal with unknown | ⟨rows, found, absent⟩
  · have missing : (Py.dict valid).contains (.str k) = .ok false :=
      contains_of_absent rfl fun v same => Py.str.inj same ▸ unknown
    simp [checkOption, missing, printedKeys, Py.entriesOf, bind, Except.bind, pure, Except.pure]
  · simp [checkOption, contains_of_lookup found, getItem_of_lookup found, Py.callable,
      contains_of_absent hashable absent, printedKeys, Py.entriesOf, bind, Except.bind, pure,
      Except.pure]

-----------------------------------------------------------------------------------------
-- The updates
-----------------------------------------------------------------------------------------

/-- The submission with its environment. -/
def withEnv (sub : Submission) (env : List (String × Py)) : Submission :=
  { sub with env := .dict env }

theorem updateEnvWith_run (sub : Submission) (env entries : List (String × Py))
    : (updateEnvWith (.dict entries)).run (sub.withEnv env)
      = (.ok (), sub.withEnv (updateItems env entries)) := by
  induction entries generalizing env with
  | nil => rfl
  | cons entry rest ih => exact ih (setItem entry.1 entry.2 env)

theorem withEnv_entries (sub : Submission) (env : List (String × Py)) (method : String)
    : (sub.withEnv env).env.entriesOf method = .ok env :=
  rfl

/-- A legal option adds its bindings. -/
theorem updateEnv_run (table : OptionTable call valid) (legal : ¬ Illegal valid option)
    (sub : Submission) (env : List (String × Py))
    : (updateEnv call (.dict valid) option).run (sub.withEnv env)
      = (.ok (), sub.withEnv (updateItems env (bindings call valid option))) := by
  rw [← updateEnvWith_run]
  obtain ⟨k, value⟩ := option
  rcases legal_cases table legal with ⟨identity, found, returned⟩ | ⟨rows, v, found, isText, row⟩
  · simp only [updateEnv, getItem_of_lookup found]
    rw [run_bind_of_ok (run_lift _ _), run_bind_of_ok (run_gets _ _), withEnv_entries,
      run_bind_of_ok (run_lift _ _)]
    dsimp only
    rw [returned, run_bind_of_ok (run_lift _ _)]
  · cases isText
    simp only [updateEnv, getItem_of_lookup found]
    rw [run_bind_of_ok (run_lift _ _), run_bind_of_ok (run_gets _ _), withEnv_entries,
      run_bind_of_ok (run_lift _ _)]
    dsimp only
    rw [getItem_of_lookup row, run_bind_of_ok (run_lift _ _)]

/-- Legal options add their bindings in order, by induction on them. -/
theorem updateEnvs_run (table : OptionTable call valid) {options : List (String × Py)}
    (legal : ∀ option ∈ options, ¬ Illegal valid option) (sub : Submission)
    (env : List (String × Py))
    : (options.forM (updateEnv call (.dict valid))).run (sub.withEnv env)
      = (.ok (), sub.withEnv (updateItems env (options.flatMap (bindings call valid)))) := by
  induction options generalizing env with
  | nil => rfl
  | cons option rest ih =>
      have first := updateEnv_run table (legal option List.mem_cons_self) sub env
      have later := ih (fun other member => legal other (List.mem_cons_of_mem option member))
        (updateItems env (bindings call valid option))
      rw [List.flatMap_cons, updateItems_append, ← later]
      exact run_bind_of_ok first

/-- The options that the user did not give. -/
def notGiven (options defaults : List (String × Py)) : List (String × Py) :=
  defaults.filter fun option => (options.lookup option.1).isNone

-----------------------------------------------------------------------------------------
-- parse_options
-----------------------------------------------------------------------------------------

section Parsing

variable {sub : Submission} {options defaults env : List (String × Py)}

/-- The two loops of updates. -/
def updates (call : Nat → Py → Except Raised Py) (valid options defaults : List (String × Py))
    : Program Raised Submission Unit := do
  options.forM (updateEnv call (.dict valid))
  (notGiven options defaults).forM (updateEnv call (.dict valid))

/-- The checks come first and do not touch the submission. -/
theorem parseOptions_run (isValid : sub.labSpec .validOptions = .dict valid)
    (isDefaults : sub.labSpec .defaultOptions = .dict defaults)
    (isOptions : sub.options = .dict options)
    : (parseOptions interpreter call).run sub
      = match (forM (options ++ defaults) (checkOption interpreter (.dict valid))
            : Except Raised PUnit) with
        | .error raised => (.error raised, sub)
        | .ok _ => (updates call valid options defaults).run sub := by
  have loops : (parseOptions interpreter call).run sub
      = ((forM (options ++ defaults) fun option =>
            lift (checkOption interpreter (.dict valid) option))
          >>= fun _ => options.forM (updateEnv call (.dict valid))
          >>= fun _ => forM defaults fun option =>
            if (options.lookup option.1).isNone = true then updateEnv call (.dict valid) option
            else pure ⟨⟩ : Program Raised Submission PUnit).run sub := by
    unfold parseOptions
    rw [run_bind_of_ok (run_gets _ _), isValid, run_bind_of_ok (run_gets _ _), isOptions,
      Py.entriesOf, run_bind_of_ok (run_lift _ _), isDefaults, Py.entriesOf,
      run_bind_of_ok (run_lift _ _)]
    rfl
  rw [loops, Program.run_bind, Program.run_forM_lift, forM_guarded]
  cases (forM (options ++ defaults) (checkOption interpreter (.dict valid))
      : Except Raised PUnit) with
  | error raised => rfl
  | ok value => rfl

/-- The environment after legal options: the user's first, then the remaining defaults. -/
theorem updates_run (table : OptionTable call valid)
    (legal : ∀ option ∈ options ++ defaults, ¬ Illegal valid option) (sub : Submission)
    (env : List (String × Py))
    : (updates call valid options defaults).run (sub.withEnv env)
      = (.ok (), sub.withEnv (updateItems env
          ((options ++ notGiven options defaults).flatMap (bindings call valid)))) := by
  have given := updateEnvs_run table
    (fun option member => legal option (List.mem_append_left defaults member)) sub env
  have remaining : ∀ option ∈ notGiven options defaults, ¬ Illegal valid option :=
    fun option member =>
      legal option (List.mem_append_right options (List.mem_of_mem_filter member))
  rw [List.flatMap_append, updateItems_append, ← updateEnvs_run table remaining]
  exact run_bind_of_ok given

/-- Legal options are applied, and applied again they change nothing. -/
theorem parseOptions_of_legal (interpreter : Interpreter) (table : OptionTable call valid)
    (isValid : sub.labSpec .validOptions = .dict valid)
    (isDefaults : sub.labSpec .defaultOptions = .dict defaults)
    (isOptions : sub.options = .dict options)
    (legal : ∀ option ∈ options ++ defaults, ¬ Illegal valid option)
    (env : List (String × Py))
    : (parseOptions interpreter call).run (sub.withEnv env)
      = (.ok (), sub.withEnv (updateItems env
          ((options ++ notGiven options defaults).flatMap (bindings call valid)))) := by
  have passes : (forM (options ++ defaults) (checkOption interpreter (.dict valid))
      : Except Raised PUnit) = .ok ⟨⟩ :=
    forM_eq_ok fun option member => checkOption_of_legal table (legal option member)
  have run : (parseOptions interpreter call).run (sub.withEnv env) = _ :=
    parseOptions_run isValid isDefaults isOptions
  rw [run, passes]
  exact updates_run table legal sub env

/-- An illegal option is reported before anything has changed. -/
theorem parseOptions_of_illegal (interpreter : Interpreter)
    (isValid : sub.labSpec .validOptions = .dict valid)
    (isDefaults : sub.labSpec .defaultOptions = .dict defaults)
    (isOptions : sub.options = .dict options) (table : OptionTable call valid)
    (hashable : ∀ option ∈ options ++ defaults, option.2.hashable = true)
    (illegal : ∃ option ∈ options ++ defaults, Illegal valid option)
    : ∃ message, (parseOptions interpreter call).run sub
        = (.error ⟨badOptionException, message⟩, sub) := by
  obtain ⟨option, member, bad⟩ := illegal
  have fails : checkOption interpreter (.dict valid) option ≠ .ok ⟨⟩ := by
    obtain ⟨message, raised⟩ := checkOption_of_illegal (hashable option member) bad
    rw [raised]
    exact fun same => nomatch same
  obtain ⟨first, inside, error, raised, stops⟩ := exists_error_of_forM member fails
  have reported : ∃ message, error = ⟨badOptionException, message⟩ := by
    by_cases illegal : Illegal valid first
    · obtain ⟨message, other⟩ := checkOption_of_illegal (hashable first inside) illegal
      exact ⟨message, Except.error.inj (raised.symm.trans other)⟩
    · cases raised.symm.trans (checkOption_of_legal table illegal)
  obtain ⟨message, rfl⟩ := reported
  refine ⟨message, ?_⟩
  rw [parseOptions_run isValid isDefaults isOptions, stops]

end Parsing

/-- `parse_options` is all or nothing. It raises `BadOptionException` exactly for an unknown
key or a value that its table does not have, with the submission unchanged. Otherwise the
environment gets the bindings of the user's options in order and then of the defaults that
the user did not give, every other variable keeps its value, and a second run changes
nothing. An option's value is something that can be a key of a table.
-/
theorem parseOptions_all_or_nothing (interpreter : Interpreter)
    (call : Nat → Py → Except Raised Py) (sub : Submission)
    (valid options defaults env : List (String × Py)) (table : OptionTable call valid)
    (isValid : sub.labSpec .validOptions = .dict valid)
    (isDefaults : sub.labSpec .defaultOptions = .dict defaults)
    (isOptions : sub.options = .dict options) (isEnv : sub.env = .dict env)
    (hashable : ∀ option ∈ options ++ defaults, option.2.hashable = true)
    : ((∃ message, ((parseOptions interpreter call).run sub).1
          = .error ⟨badOptionException, message⟩)
        ↔ ∃ option ∈ options ++ defaults, Illegal valid option)
      ∧ ((∃ option ∈ options ++ defaults, Illegal valid option)
          → ((parseOptions interpreter call).run sub).2 = sub)
      ∧ ((∀ option ∈ options ++ defaults, ¬ Illegal valid option)
          → ∃ final, (parseOptions interpreter call).run sub
              = (.ok (), { sub with env := .dict final })
            ∧ final = updateItems
                (updateItems env (options.flatMap (bindings call valid)))
                ((notGiven options defaults).flatMap (bindings call valid))
            ∧ (∀ name,
                (∀ option ∈ options ++ notGiven options defaults,
                  name ∉ (bindings call valid option).map Prod.fst)
                → final.lookup name = env.lookup name)
            ∧ (parseOptions interpreter call).run { sub with env := .dict final }
                = (.ok (), { sub with env := .dict final })) := by
  have same : sub.withEnv env = sub := by
    rw [withEnv, ← isEnv]
  refine ⟨⟨?_, ?_⟩, ?_, ?_⟩
  · rintro ⟨message, raised⟩
    by_contra none
    have legal : ∀ option ∈ options ++ defaults, ¬ Illegal valid option :=
      fun option member illegal => none ⟨option, member, illegal⟩
    have ended := parseOptions_of_legal interpreter table isValid isDefaults isOptions legal env
    rw [same] at ended
    rw [ended] at raised
    cases raised
  · intro illegal
    obtain ⟨message, raised⟩ := parseOptions_of_illegal interpreter isValid isDefaults
      isOptions table hashable illegal
    exact ⟨message, congrArg Prod.fst raised⟩
  · intro illegal
    obtain ⟨message, raised⟩ := parseOptions_of_illegal interpreter isValid isDefaults
      isOptions table hashable illegal
    exact congrArg Prod.snd raised
  · intro legal
    have run := parseOptions_of_legal interpreter table isValid isDefaults isOptions legal
    let added := (options ++ notGiven options defaults).flatMap (bindings call valid)
    refine ⟨updateItems env added, ?_, ?_, ?_, ?_⟩
    · have first := run env
      rw [same] at first
      exact first
    · rw [← updateItems_append, ← List.flatMap_append]
    · intro name apart
      refine lookup_updateItems (fun bound => ?_) env
      obtain ⟨entry, member, rfl⟩ := List.mem_map.mp bound
      obtain ⟨option, inside, here⟩ := List.mem_flatMap.mp member
      exact apart option inside (List.mem_map_of_mem here)
    · have second := run (updateItems env added)
      rw [updateItems_updateItems] at second
      exact second

/-- A table of clock speeds and a function for the number of threads. -/
def clockOptions : List (String × Py) :=
  [("clock", .dict [("fast", .dict [("MHZ", .str "3000")]), ("slow", .dict [("MHZ", .str "800")])]),
    ("threads", .function 0)]

def bindThreads (_identity : Nat) (v : Py) : Except Raised Py := .ok (.dict [("THREADS", v)])

/-- The user asks for a fast clock, which the defaults have slow. -/
def clockSubmission : Submission where
  labSpec := ((plainSpec (.list [])).replace .validOptions (.dict clockOptions)).replace
    .defaultOptions (.dict [("clock", .str "slow"), ("threads", .str "1")])
  files := .dict []
  env := .dict [("PATH", .str "/bin")]
  options := .dict [("clock", .str "fast")]

theorem clockOptions_table : OptionTable bindThreads clockOptions := by
  refine ⟨fun k entry found => ?_⟩
  rw [clockOptions, List.lookup_cons] at found
  split at found
  · cases found
    refine .inr ⟨_, rfl, fun v row here => ?_⟩
    rw [List.lookup_cons] at here
    split at here
    · cases here
      exact ⟨_, rfl⟩
    · rw [List.lookup_cons] at here
      split at here
      · cases here
        exact ⟨_, rfl⟩
      · cases here
  · rw [List.lookup_cons] at found
    split at found
    · cases found
      exact .inl ⟨0, rfl, fun v => ⟨_, rfl⟩⟩
    · cases found

/-- The options of the submission and its defaults are legal values that can be keys. -/
theorem clockSubmission_legal
    : ∀ option ∈ [("clock", Py.str "fast")] ++ [("clock", .str "slow"), ("threads", .str "1")],
        ¬ Illegal clockOptions option ∧ option.2.hashable = true := by
  intro option member
  simp only [List.cons_append, List.nil_append, List.mem_cons, List.not_mem_nil, or_false] at member
  rcases member with rfl | rfl | rfl
  · refine ⟨?_, rfl⟩
    rintro (unknown | ⟨table, found, absent⟩)
    · exact unknown (by decide)
    · cases found
      exact absent "fast" rfl (by decide)
  · refine ⟨?_, rfl⟩
    rintro (unknown | ⟨table, found, absent⟩)
    · exact unknown (by decide)
    · cases found
      exact absent "slow" rfl (by decide)
  · refine ⟨?_, rfl⟩
    rintro (unknown | ⟨table, found, absent⟩)
    · exact unknown (by decide)
    · cases found

/-- The fast clock stays, and the number of threads comes from the defaults. -/
theorem parseOptions_clock
    : (parseOptions plainInterpreter bindThreads).run clockSubmission
      = (.ok (), { clockSubmission with
          env := .dict [("PATH", .str "/bin"), ("MHZ", .str "3000"), ("THREADS", .str "1")] }) := by
  obtain ⟨_, _, applies⟩ := parseOptions_all_or_nothing plainInterpreter bindThreads
    clockSubmission clockOptions [("clock", .str "fast")]
    [("clock", .str "slow"), ("threads", .str "1")] [("PATH", .str "/bin")] clockOptions_table
    rfl rfl rfl rfl (fun option member => (clockSubmission_legal option member).2)
  obtain ⟨final, run, same, _⟩ :=
    applies fun option member => (clockSubmission_legal option member).1
  rw [run, same]
  rfl

end PMKVLab.Runner.Submission
