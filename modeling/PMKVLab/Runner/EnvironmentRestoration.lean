import Mathlib.Data.List.TakeWhile
import PMKVLab.Runner.PristineRuns

/-! What `run_submission_locally` leaves in `os.environ`. Only the update in front of the
`try` of `environment` and the restoration after it assign variables.
-/

namespace PMKVLab.Runner

open PMKVLab.Library

variable {world : World}

-----------------------------------------------------------------------------------------
-- Assignments
-----------------------------------------------------------------------------------------

/-- The text that `os.environ` takes for an entry, if it takes it. -/
def World.taken (world : World) (entry : String × Py) : Option String :=
  match entry.2 with
  | .str value => if world.accepts entry.1 value then some value else none
  | _ => none

/-- The environment after an update with entries, up to the first that is rejected. -/
def assigned (world : World) : List (String × Py) → Environ → Environ
  | [], environ => environ
  | entry :: rest, environ =>
      match world.taken entry with
      | some value => assigned world rest (setItem entry.1 value environ)
      | none => environ

/-- One assignment: a rejected entry changes nothing. -/
theorem assignEnviron_run (entry : String × Py) (state : RunState world)
    : match world.taken entry with
      | some value => (assignEnviron entry).run state
          = (.ok (), { state with environ := setItem entry.1 value state.environ })
      | none => ∃ raised, (assignEnviron entry).run state = (.error raised, state) := by
  obtain ⟨name, value⟩ := entry
  cases value with
  | str value =>
      have unfolded
          : (assignEnviron (name, .str value)).run state
            = (if world.accepts name value then
                Program.modify fun state =>
                  { state with environ := setItem name value state.environ }
              else
                Program.raise ⟨.valueError, "illegal environment variable"⟩
              : Running world Unit).run state :=
        rfl
      rw [unfolded]
      by_cases accepted : world.accepts name value = true
      · simp only [World.taken, if_pos accepted]
        rfl
      · simp only [World.taken, if_neg accepted]
        exact ⟨_, rfl⟩
  | _ => exact ⟨_, rfl⟩

/-- An update assigns up to the first rejected entry and ends normally when there is none,
by induction on the entries.
-/
theorem update_run (entries : List (String × Py)) (state : RunState world)
    : ∃ outcome, (forM entries assignEnviron : Running world PUnit).run state
        = (outcome, { state with environ := assigned world entries state.environ })
      ∧ (outcome = .ok () ↔ ∀ entry ∈ entries, (world.taken entry).isSome) := by
  induction entries generalizing state with
  | nil => exact ⟨.ok (), rfl, by simp⟩
  | cons entry rest ih =>
      have first := assignEnviron_run entry state
      rw [List.forM_cons, assigned]
      cases taken : world.taken entry with
      | some value =>
          simp only [taken] at first
          rw [Program.run_bind_of_ok first]
          obtain ⟨outcome, run, ends⟩ := ih _
          exact ⟨outcome, run, ends.trans (by simp [taken])⟩
      | none =>
          simp only [taken] at first
          obtain ⟨raised, run⟩ := first
          rw [Program.run_bind, run]
          exact ⟨.error raised, rfl, by simp [taken]⟩

/-- A variable of the environment as an entry of an update. -/
def asEntry (setting : String × String) : String × Py :=
  (setting.1, .str setting.2)

/-- Assigning the variables of an environment after others gives them in their order, up to
the first that is rejected.
-/
theorem assigned_asEntry {others environ : Environ}
    (distinct : ((others ++ environ).map Prod.fst).Nodup)
    : assigned world (environ.map asEntry) others
      = others ++ environ.takeWhile fun setting => world.accepts setting.1 setting.2 := by
  induction environ generalizing others with
  | nil => simp [assigned]
  | cons setting rest ih =>
      have fresh : setting.1 ∉ others.map Prod.fst := by
        rw [List.map_append, List.nodup_append] at distinct
        exact fun member => distinct.2.2 _ member _ (by simp) rfl
      rw [List.map_cons, assigned, List.takeWhile_cons]
      by_cases accepted : world.accepts setting.1 setting.2 = true
      · have taken : world.taken (asEntry setting) = some setting.2 := if_pos accepted
        have moved : others ++ setting :: rest = (others ++ [setting]) ++ rest := by simp
        rw [moved] at distinct
        have later : setItem (asEntry setting).1 setting.2 others = others ++ [setting] :=
          setItem_of_notMem setting.2 fresh
        simp only [taken, later, ih distinct, accepted, if_true, List.append_assoc]
        rfl
      · have rejected : world.taken (asEntry setting) = none := if_neg accepted
        simp [rejected, accepted]

/-- An entry assigns a variable the value that it has. -/
def World.Repeats (world : World) (environ : Environ) (entry : String × Py) : Prop :=
  ∃ value, world.taken entry = some value ∧ environ.lookup entry.1 = some value

/-- An update comes to an entry that is rejected, and every entry before it assigns a
variable the value that it has.
-/
def FailsUnchanged (world : World) (environ : Environ) (entries : List (String × Py)) : Prop :=
  ∃ front rejected rest, entries = front ++ rejected :: rest ∧ world.taken rejected = none
    ∧ ∀ entry ∈ front, world.Repeats environ entry

/-- A variable that no entry names keeps its value. -/
theorem lookup_assigned {name : String} {entries : List (String × Py)}
    (apart : name ∉ entries.map Prod.fst) (environ : Environ)
    : (assigned world entries environ).lookup name = environ.lookup name := by
  induction entries generalizing environ with
  | nil => rfl
  | cons entry rest ih =>
      rw [List.map_cons, List.mem_cons, not_or] at apart
      rw [assigned]
      cases world.taken entry with
      | none => rfl
      | some value => exact (ih apart.2 _).trans (lookup_setItem_of_ne apart.1 _ _)

/-- Entries with distinct names that are all taken change nothing exactly when each of them
assigns the present value.
-/
theorem assigned_eq_self_iff {entries : List (String × Py)} {environ : Environ}
    (distinct : (entries.map Prod.fst).Nodup)
    (all : ∀ entry ∈ entries, (world.taken entry).isSome)
    : assigned world entries environ = environ
      ↔ ∀ entry ∈ entries, world.Repeats environ entry := by
  induction entries generalizing environ with
  | nil => simp [assigned]
  | cons entry rest ih =>
      rw [List.map_cons, List.nodup_cons] at distinct
      rw [List.forall_mem_cons] at all ⊢
      obtain ⟨value, taken⟩ := Option.isSome_iff_exists.mp all.1
      have rest_iff := @ih environ distinct.2 all.2
      simp only [assigned, taken]
      constructor
      · intro same
        -- no later entry has the name, so the first assignment is the one that shows
        have present : environ.lookup entry.1 = some value := by
          rw [← same, lookup_assigned distinct.1, lookup_setItem_self]
        rw [setItem_of_lookup present] at same
        exact ⟨⟨value, taken, present⟩, rest_iff.mp same⟩
      · rintro ⟨⟨_, again, present⟩, repeated⟩
        cases taken.symm.trans again
        rw [setItem_of_lookup present]
        exact rest_iff.mpr repeated

/-- What follows a rejected entry is not assigned. -/
theorem assigned_append_rejected {front rest : List (String × Py)} {rejected : String × Py}
    (none : world.taken rejected = none) (environ : Environ)
    : assigned world (front ++ rejected :: rest) environ = assigned world front environ := by
  induction front generalizing environ with
  | nil => simp [assigned, none]
  | cons entry front ih =>
      rw [List.cons_append, assigned, assigned]
      cases world.taken entry with
      | none => rfl
      | some value => exact ih _

/-- A failing update leaves the environment alone exactly when the entries before its first
rejected one assign present values.
-/
theorem assigned_eq_iff_failsUnchanged {entries : List (String × Py)} {environ : Environ}
    (distinct : (entries.map Prod.fst).Nodup) (fails : ∃ entry ∈ entries, world.taken entry = none)
    : assigned world entries environ = environ ↔ FailsUnchanged world environ entries := by
  obtain ⟨rejected, first⟩
      : ∃ rejected, entries.find? (world.taken · |>.isNone) = some rejected := by
    obtain ⟨entry, member, none⟩ := fails
    exact Option.isSome_iff_exists.mp (List.find?_isSome.mpr ⟨entry, member, by simp [none]⟩)
  obtain ⟨isNone, front, rest, rfl, before⟩ := List.find?_eq_some_iff_append.mp first
  have none : world.taken rejected = none := Option.isNone_iff_eq_none.mp isNone
  have all : ∀ entry ∈ front, (world.taken entry).isSome := by simpa using before
  rw [List.map_append, List.nodup_append] at distinct
  rw [assigned_append_rejected none, assigned_eq_self_iff distinct.1 all]
  constructor
  · exact fun repeated => ⟨front, rejected, rest, rfl, none, repeated⟩
  · rintro ⟨other, again, later, split, rejects, repeated⟩ entry member
    -- both split the entries at the first one that is rejected
    have same : front = other := by
      have taken : ∀ entry ∈ other, (world.taken entry).isSome := by
        intro entry member
        obtain ⟨value, taken, _⟩ := repeated entry member
        simp [taken]
      have one : (front ++ rejected :: rest).takeWhile (fun entry => (world.taken entry).isSome)
          = front := by
        rw [List.takeWhile_append_of_pos all]
        simp [none]
      have another : (other ++ again :: later).takeWhile (fun entry => (world.taken entry).isSome)
          = other := by
        rw [List.takeWhile_append_of_pos taken]
        simp [rejects]
      rw [← one, split, another]
    exact repeated entry (same ▸ member)

-----------------------------------------------------------------------------------------
-- The context manager
-----------------------------------------------------------------------------------------

/-- What `environment` leaves when its body keeps the environment: the restored variables,
or the part of an update that failed.
-/
def leftBehind (world : World) (environ : Environ) (entries : List (String × Py)) : Environ :=
  if ∀ entry ∈ entries, (world.taken entry).isSome then
    assigned world (environ.map asEntry) []
  else
    assigned world entries environ

/-- Restoring starts from nothing and assigns the environment only. -/
theorem restoreEnviron_run (environ : Environ) (state : RunState world)
    : ∃ outcome, (restoreEnviron environ).run state
        = (outcome, { state with environ := assigned world (environ.map asEntry) [] }) := by
  have unfolded
      : (restoreEnviron environ).run state
        = (forM (environ.map asEntry) assignEnviron : Running world PUnit).run
            { state with environ := [] } := by
    rw [List.forM_map]
    rfl
  obtain ⟨outcome, run, _⟩ := update_run (environ.map asEntry) { state with environ := [] }
  exact ⟨outcome, unfolded.trans run⟩

/-- Whatever its body does to the environment, only the restoration and a failed update can
be seen afterwards.
-/
theorem environment_environ {Value : Type} (kwds : Py) (body : Running world Value)
    (state : RunState world)
    : ((environment kwds body).run state).2.environ
      = match kwds.unpack with
        | .ok entries => leftBehind world state.environ entries
        | .error _ => state.environ := by
  unfold environment
  rw [Program.run_bind_of_ok (Program.run_gets state RunState.environ)]
  cases kwds.unpack with
  | error raised => rfl
  | ok entries =>
      rw [Program.run_bind_of_ok (Program.run_lift state _)]
      obtain ⟨outcome, run, ends⟩ := update_run entries state
      change (((forM entries assignEnviron : Running world PUnit)
        >>= fun _ => Program.ensure body (restoreEnviron state.environ)).run state).2.environ = _
      rw [Program.run_bind, run]
      simp only [leftBehind]
      cases outcome with
      | error raised =>
          have rejected : ¬ ∀ entry ∈ entries, (world.taken entry).isSome :=
            fun all => nomatch ends.mpr all
          rw [if_neg rejected]
      | ok _ =>
          rw [if_pos (ends.mp rfl)]
          dsimp only
          rw [Program.run_ensure]
          obtain ⟨restored, run⟩ := restoreEnviron_run state.environ
            (body.run { state with environ := assigned world entries state.environ }).2
          rw [run]
          cases restored <;> rfl

-----------------------------------------------------------------------------------------
-- The other steps
-----------------------------------------------------------------------------------------

def HasEnviron (environ : Environ) (state : RunState world) : Prop :=
  state.environ = environ

variable {environ : Environ}

theorem logRun_keeps (command : Py) (cwd : Option String) (timeout : Py)
    : (logRun command cwd timeout : Running world Status).Keeps (HasEnviron environ) :=
  (Program.keeps_gets _).bind fun _ => (Program.keeps_gets _).bind fun _ =>
    Program.Keeps.bind (fun _ kept => kept) fun _ => (Program.keeps_lift _).bind fun _ =>
      Program.Keeps.bind (fun _ kept => kept) fun _ => Program.keeps_pure _

/-- The property does not look at the files. -/
def IgnoresTree (property : RunState world → Prop) : Prop :=
  ∀ state tree, property state → property (state.withTree tree)

/-- The property does not look at the files and the submission, which is all that the steps
before the command change.
-/
structure IgnoresSetup (property : RunState world → Prop) : Prop where
  tree : IgnoresTree property
  sub {state : RunState world} {sub : Submission}
    : property state → property { state with sub := sub }

theorem HasEnviron.ignoresSetup
    : IgnoresSetup (HasEnviron environ : RunState world → Prop) :=
  ⟨fun _ _ kept => kept, id⟩

section Setup

variable {property : RunState world → Prop}

theorem fetchSpec_keeps (ignores : IgnoresTree property) (flags : RunFlags)
    : (fetchSpec flags : Running world LabSpec).Keeps property := by
  have loads : (LabSpec.load : Running world LabSpec).Keeps property := by
    intro state kept
    rw [load_run]
    exact ignores _ _ kept
  unfold fetchSpec
  cases flags.runPristine with
  | false => exact loads
  | true =>
      refine (Program.keeps_gets _).bind fun submitted => Program.Keeps.bind ?_ fun _ => loads
      intro state kept
      rw [cloneRepo_run]
      cases world.clone (submitted .repo) state.tree with
      | error raised => exact kept
      | ok tree => exact ignores _ _ kept

theorem writeInputFile_keeps (ignores : IgnoresTree property) (f : Py)
    : (writeInputFile f : Running world Unit).Keeps property :=
  (Program.keeps_lift _).bind fun _ => (Program.keeps_gets _).bind fun _ =>
    (Program.keeps_lift _).bind fun _ =>
      Program.Keeps.bind (fun _ kept => ignores _ _ kept) fun _ =>
        (Program.keeps_gets _).bind fun _ => (Program.keeps_lift _).bind fun _ =>
          (Program.keeps_lift _).bind fun _ => (Program.keeps_gets _).bind fun _ =>
            (Program.keeps_lift _).bind fun _ => fun _ kept => ignores _ _ kept

theorem prepare_keeps (ignores : IgnoresSetup property) (interpreter : Interpreter)
    (flags : RunFlags) (spec : LabSpec)
    : (prepare interpreter flags spec : Running world Unit).Keeps property := by
  unfold prepare
  refine Program.Keeps.bind (fun _ kept => ignores.sub kept) fun _ =>
    Program.Keeps.bind (fun _ kept => ignores.sub kept) fun _ => ?_
  cases flags.runPristine with
  | false => exact Program.keeps_pure ()
  | true =>
      exact (Program.keeps_lift _).bind fun _ =>
        Program.keeps_forM fun f _ => writeInputFile_keeps ignores.tree f

/-- The property allows new settings in the environment of a submission, which is all that
`parse_options` and `apply_options` change.
-/
def AllowsSettings (property : Submission → Prop) : Prop :=
  ∀ (sub : Submission) entries key value, property sub → sub.env = .dict entries
    → property { sub with env := .dict (setItem key value entries) }

variable {kept : Submission → Prop}

theorem updateEnvWith_keeps (allows : AllowsSettings kept) (bindings : Py)
    : (Submission.updateEnvWith bindings).Keeps kept := by
  have assigns (key : String) (value : Py)
      : (do
          let entries ← Program.lift ((← Program.gets Submission.env).entriesOf "update")
          Program.modify fun sub => { sub with env := .dict (setItem key value entries) }
          : Program Raised Submission Unit).Keeps kept := by
    intro sub holds
    rw [Program.run_bind_of_ok (Program.run_gets _ _), Program.run_bind, Program.run_lift]
    cases env : sub.env with
    | dict entries => exact allows sub entries key value holds env
    | _ => exact holds
  unfold Submission.updateEnvWith
  cases bindings with
  | dict entries => exact Program.keeps_forM fun entry _ => assigns entry.1 entry.2
  | _ =>
      exact (Program.keeps_lift _).bind fun _ => Program.keeps_forM fun _ _ =>
        (Program.keeps_lift _).bind fun pair => assigns pair.1 pair.2

theorem updateEnv_keeps (allows : AllowsSettings kept) (call : Nat → Py → Except Raised Py)
    (validOptions : Py) (option : String × Py)
    : (Submission.updateEnv call validOptions option).Keeps kept := by
  unfold Submission.updateEnv
  refine (Program.keeps_lift _).bind fun valid => (Program.keeps_gets _).bind fun _ =>
    (Program.keeps_lift _).bind fun _ => ?_
  cases valid with
  | _ => exact (Program.keeps_lift _).bind fun bindings => updateEnvWith_keeps allows bindings

theorem parseOptions_keeps (allows : AllowsSettings kept) (interpreter : Interpreter)
    (call : Nat → Py → Except Raised Py)
    : (Submission.parseOptions interpreter call).Keeps kept := by
  unfold Submission.parseOptions
  refine (Program.keeps_gets _).bind fun _ => (Program.keeps_gets _).bind fun _ =>
    (Program.keeps_lift _).bind fun options => (Program.keeps_lift _).bind fun defaults => ?_
  refine (Program.keeps_forM fun _ _ => Program.keeps_lift _).bind fun _ =>
    (Program.keeps_forM fun option _ => updateEnv_keeps allows call _ option).bind fun _ =>
      Program.keeps_forM fun option _ => ?_
  split
  · exact updateEnv_keeps allows call _ option
  · exact Program.keeps_pure ()

theorem applyOptions_keeps (allows : AllowsSettings kept) (interpreter : Interpreter)
    (commands : Submission.Commands)
    : (Submission.applyOptions interpreter commands).Keeps kept := by
  have sets (frequencies : List Int)
      : (do
          let target ← Program.lift
            (Submission.targetMHz interpreter (← Program.gets Submission.env) frequencies)
          Program.lift (Submission.setFrequency commands target)
          : Program Raised Submission Unit).Keeps kept :=
    (Program.keeps_gets _).bind fun _ => (Program.keeps_lift _).bind fun _ => Program.keeps_lift _
  unfold Submission.applyOptions
  refine (Program.keeps_lift _).bind fun _ => ?_
  split
  · exact Program.keeps_pure ()
  · refine (Program.keeps_lift _).bind fun frequencies => ?_
    intro sub holds
    rw [Program.run_bind_of_ok (Program.run_gets _ _)]
    cases env : sub.env with
    | dict entries => exact sets frequencies _ (allows sub entries _ _ holds env)
    | _ => exact holds

/-- What is true of the submission with the loaded specification, and allows new settings,
is true after the options.
-/
theorem prepare_sub (allows : AllowsSettings kept) (interpreter : Interpreter)
    (flags : RunFlags) (spec : LabSpec) (state : RunState world)
    (start : kept { state.sub with labSpec := spec })
    : kept ((prepare interpreter flags spec).run state).2.sub := by
  have options : (do
      Submission.parseOptions interpreter world.call
      if flags.applyOptions then
        Submission.applyOptions interpreter world.commands
      : Program Raised Submission Unit).Keeps kept := by
    refine (parseOptions_keeps allows interpreter world.call).bind fun _ => ?_
    split
    · exact applyOptions_keeps allows interpreter world.commands
    · exact Program.keeps_pure ()
  have replaced : kept (state.withSpec spec).sub := start
  unfold prepare
  rw [Program.run_bind_of_ok (Program.run_modify _ _)]
  have zoomed : (Program.zoom RunState.sub (fun sub state => { state with sub := sub }) (do
        Submission.parseOptions interpreter world.call
        if flags.applyOptions then
          Submission.applyOptions interpreter world.commands) : Running world Unit).Keeps
      fun state => kept state.sub :=
    fun state => options state.sub
  refine zoomed.bind (fun _ => ?_) _ replaced
  split
  · exact (Program.keeps_lift _).bind fun _ => Program.keeps_forM fun f _ =>
      writeInputFile_keeps (fun _ _ kept => kept) f
  · exact Program.keeps_pure ()

end Setup

theorem collectOutput_keeps (i : Py)
    : (collectOutput i : Running world Unit).Keeps (HasEnviron environ) := by
  unfold collectOutput
  split
  · exact Program.keeps_pure ()
  · refine (Program.keeps_lift _).bind fun path => (Program.keeps_gets _).bind fun tree => ?_
    cases world.read tree path with
    | none => exact fun _ kept => kept
    | some outcome => exact (Program.keeps_lift _).bind fun _ => fun _ kept => kept

/-- What follows the try block leaves the environment alone. -/
theorem conclude_environ (interpreter : Interpreter) (ended : Except Raised Unit × RunState world)
    : (conclude interpreter ended).2.environ = ended.2.environ := by
  have builds : (buildResult interpreter : Running world SubmissionResult).Keeps
      (HasEnviron ended.2.environ) :=
    Program.Keeps.bind (fun _ kept => kept) fun _ => (Program.keeps_gets _).bind fun _ =>
      Program.keeps_lift _
  unfold conclude
  cases ended.1 with
  | ok _ => exact builds ended.2 rfl
  | error raised =>
      refine Program.Keeps.bind ?_ (fun _ => builds) ended.2 rfl
      unfold handle
      split
      · exact Program.keeps_raise _
      · exact fun _ kept => kept

-----------------------------------------------------------------------------------------
-- Whole runs
-----------------------------------------------------------------------------------------

/-- The directory in which the try block works, before anything happened in it. -/
def entered (flags : RunFlags) (state : RunState world) : Except Raised (RunState world) :=
  if flags.runPristine then world.temporaryDirectory.map state.withTree
  else .ok (state.withTree world.root)

/-- Entering the directory changes nothing but the files. -/
theorem entered_ok {flags : RunFlags} {state inside : RunState world}
    (start : entered flags state = .ok inside)
    : ∃ tree, inside = state.withTree tree := by
  unfold entered at start
  split at start
  · cases made : world.temporaryDirectory with
    | error raised =>
        rw [made] at start
        cases start
    | ok tree =>
        rw [made] at start
        cases start
        exact ⟨tree, rfl⟩
  · cases start
    exact ⟨world.root, rfl⟩

/-- The steps of the try block before its command. -/
def beforeCommand (interpreter : Interpreter) (flags : RunFlags) : Running world LabSpec := do
  let spec ← fetchSpec flags
  prepare interpreter flags spec
  return spec

/-- The entries with which a run updates the environment, if it comes to that. -/
def updateEntries (interpreter : Interpreter) (flags : RunFlags) (state : RunState world)
    : Option (List (String × Py)) :=
  match entered flags state with
  | .error _ => none
  | .ok inside =>
      match (beforeCommand interpreter flags).run inside with
      | (.error _, _) => none
      | (.ok _, reached) =>
          if flags.runInDocker then none else reached.sub.env.unpack.toOption

/-- What a run leaves, by whether it comes to the update. -/
def environAfter (world : World) (environ : Environ)
    : Option (List (String × Py)) → Environ
  | none => environ
  | some entries => leftBehind world environ entries

/-- The command, with its updated environment outside of containers. -/
theorem runCommand_environ (flags : RunFlags) (spec : LabSpec) (state : RunState world)
    : ((runCommand flags spec).run state).2.environ
      = environAfter world state.environ
          (if flags.runInDocker then none else state.sub.env.unpack.toOption) := by
  have ended (program : Running world Status)
      : ((do
          let status ← program
          Program.modify fun state => { state with status := status } : Running world Unit).run
            state).2.environ
        = (program.run state).2.environ := by
    rw [Program.run_bind]
    rcases program.run state with ⟨raised | status, after⟩ <;> rfl
  unfold runCommand
  cases flags.runInDocker with
  | true => exact (ended _).trans (logRun_keeps _ _ _ state rfl)
  | false =>
      refine (ended (environment state.sub.env _)).trans ?_
      rw [environment_environ]
      cases state.sub.env.unpack <;> rfl

/-- The try block inside its directory. -/
theorem runLoaded_environ (interpreter : Interpreter) (flags : RunFlags)
    (inside : RunState world)
    : ((fetchSpec flags >>= runLoaded interpreter flags).run inside).2.environ
      = match (beforeCommand interpreter flags).run inside with
        | (.error _, _) => inside.environ
        | (.ok _, reached) =>
            environAfter world inside.environ
              (if flags.runInDocker then none else reached.sub.env.unpack.toOption) := by
  have regrouped
      : (fetchSpec flags >>= runLoaded interpreter flags : Running world Unit)
        = beforeCommand interpreter flags >>= fun spec =>
            runCommand flags spec >>= fun _ => collectOutputs spec := by
    simp only [beforeCommand, bind_assoc, pure_bind]
    rfl
  have kept : (beforeCommand interpreter flags : Running world LabSpec).Keeps
      (HasEnviron inside.environ) :=
    (fetchSpec_keeps HasEnviron.ignoresSetup.tree flags).bind fun spec =>
      (prepare_keeps HasEnviron.ignoresSetup interpreter flags spec).bind fun _ =>
        Program.keeps_pure _
  have before := kept inside rfl
  rw [regrouped, Program.run_bind]
  revert before
  rcases (beforeCommand interpreter flags).run inside with ⟨raised | spec, reached⟩
  · exact fun before => before
  · intro before
    have command := runCommand_environ flags spec reached
    rw [before] at command
    have collects : (collectOutputs spec : Running world Unit).Keeps
        (HasEnviron ((runCommand flags spec).run reached).2.environ) :=
      (Program.keeps_lift _).bind fun _ => Program.keeps_forM fun i _ => collectOutput_keeps i
    dsimp only
    rw [← command, Program.run_bind]
    revert collects
    rcases (runCommand flags spec).run reached with ⟨raised | value, after⟩
    · exact fun _ => rfl
    · exact fun collects => collects after rfl

/-- The try block leaves the environment as it was, or as its update and restoration make
it.
-/
theorem tryBlock_environ (interpreter : Interpreter) (flags : RunFlags) (state : RunState world)
    : ((tryBlock interpreter flags).run state).2.environ
      = environAfter world state.environ (updateEntries interpreter flags state) := by
  have directoryEnviron
      : ((tryBlock interpreter flags).run state).2.environ
        = match entered flags state with
          | .error _ => state.environ
          | .ok inside =>
              ((fetchSpec flags >>= runLoaded interpreter flags).run inside).2.environ := by
    unfold tryBlock directory entered
    cases flags.runPristine with
    | false => rfl
    | true =>
        rw [if_pos rfl, if_pos rfl, inTemporaryDirectory_run]
        cases world.temporaryDirectory with
        | error raised => rfl
        | ok tree =>
            simp only [Except.map]
            split <;> rfl
  rw [directoryEnviron, updateEntries]
  cases start : entered flags state with
  | error raised => rfl
  | ok inside =>
      have same : inside.environ = state.environ := by
        obtain ⟨tree, moved⟩ := entered_ok start
        rw [moved]
        rfl
      dsimp only
      rw [runLoaded_environ, same]
      rcases (beforeCommand interpreter flags).run inside with ⟨raised | spec, reached⟩ <;> rfl

/-- A whole run leaves what its try block leaves. -/
theorem runSubmissionLocally_environ (interpreter : Interpreter) (flags : RunFlags)
    (state : RunState world)
    : ((runSubmissionLocally interpreter flags).run state).2.environ
      = environAfter world state.environ (updateEntries interpreter flags state) := by
  unfold runSubmissionLocally
  rw [Program.run_bind_of_ok (Program.run_gets state RunState.environ)]
  split
  · next refused =>
    have none : updateEntries interpreter flags state = none := by
      simp only [updateEntries, refused.2.1, if_true]
      cases entered flags state with
      | error raised => rfl
      | ok inside =>
          dsimp only
          rcases (beforeCommand interpreter flags).run inside with ⟨raised | spec, reached⟩ <;>
            rfl
    rw [none]
    rfl
  · rw [← tryBlock_environ]
    exact conclude_environ interpreter ((tryBlock interpreter flags).run state)

/-- The environment of a submission is a dictionary in which no name stands twice. -/
def Submission.DistinctEnv (sub : Submission) : Prop :=
  ∀ entries, sub.env = .dict entries → (entries.map Prod.fst).Nodup

theorem Submission.distinctEnv_allowsSettings : AllowsSettings Submission.DistinctEnv := by
  rintro sub entries key value distinct env _ ⟨rfl⟩
  exact setItem_nodup key value (distinct entries env)

/-- The entries of an update have distinct names when those of the submission do. -/
theorem updateEntries_nodup {interpreter : Interpreter} {flags : RunFlags}
    {state : RunState world} (distinct : state.sub.DistinctEnv) {entries : List (String × Py)}
    (update : updateEntries interpreter flags state = some entries)
    : (entries.map Prod.fst).Nodup := by
  have prepares (spec : LabSpec)
      : (prepare interpreter flags spec : Running world Unit).Keeps
          fun state => state.sub.DistinctEnv :=
    fun state kept =>
      prepare_sub Submission.distinctEnv_allowsSettings interpreter flags spec state kept
  have keeps : (beforeCommand interpreter flags : Running world LabSpec).Keeps
      fun state => state.sub.DistinctEnv :=
    (fetchSpec_keeps (fun _ _ kept => kept) flags).bind fun spec =>
      (prepares spec).bind fun _ => Program.keeps_pure _
  unfold updateEntries at update
  cases start : entered flags state with
  | error raised =>
      rw [start] at update
      cases update
  | ok inside =>
      have before : inside.sub.DistinctEnv := by
        obtain ⟨tree, moved⟩ := entered_ok start
        rw [moved]
        exact distinct
      have after := keeps inside before
      rw [start] at update
      dsimp only at update
      revert update after
      rcases (beforeCommand interpreter flags).run inside with ⟨raised | spec, reached⟩
      · intro update
        cases update
      · intro update after
        dsimp only at update
        split at update
        · cases update
        · cases env : reached.sub.env with
          | dict listed =>
              rw [env] at update
              cases update
              exact after entries env
          | _ =>
              rw [env] at update
              cases update

/-- The environment is left as it was by an update that is undone, or by one that fails
before it changed anything.
-/
theorem leftBehind_eq_iff {environ : Environ} (distinct : (environ.map Prod.fst).Nodup)
    {entries : List (String × Py)} (names : (entries.map Prod.fst).Nodup)
    : leftBehind world environ entries = environ
      ↔ ((∀ entry ∈ entries, (world.taken entry).isSome)
          ∧ ∀ setting ∈ environ, world.accepts setting.1 setting.2)
        ∨ FailsUnchanged world environ entries := by
  have whole : (([] ++ environ : Environ).map Prod.fst).Nodup := distinct
  have restored : assigned world (environ.map asEntry) [] = environ
      ↔ ∀ setting ∈ environ, world.accepts setting.1 setting.2 := by
    rw [assigned_asEntry whole, List.nil_append, List.takeWhile_eq_self_iff]
  unfold leftBehind
  split
  · next all =>
    have passes : ¬ FailsUnchanged world environ entries := by
      rintro ⟨front, rejected, rest, rfl, none, _⟩
      have taken := all rejected (by simp)
      rw [none] at taken
      cases taken
    exact restored.trans ⟨fun accepted => .inl ⟨all, accepted⟩,
      fun either => (either.resolve_right passes).2⟩
  · next some =>
    have rejected : ∃ entry ∈ entries, world.taken entry = none := by
      simpa using some
    rw [assigned_eq_iff_failsUnchanged names rejected]
    exact ⟨.inr, fun either => either.resolve_left fun all => some all.1⟩

/-- After a run `os.environ` is what it was before exactly when the run does not come to the
update of `environment`, or all entries of the update are taken and the old variables are
taken again, or every entry before the first rejected one assigns a variable its present
value. Witness: the environment is only assigned by the update and the restoration.
-/
theorem environment_restored_iff (interpreter : Interpreter) (flags : RunFlags) (world : World)
    (environ : Environ) (sub : Submission) (distinct : (environ.map Prod.fst).Nodup)
    (settings : sub.DistinctEnv)
    : ((runSubmissionLocally interpreter flags).run (.start world environ sub)).2.environ = environ
      ↔ ∀ entries, updateEntries interpreter flags (.start world environ sub) = some entries
        → ((∀ entry ∈ entries, (world.taken entry).isSome)
            ∧ ∀ setting ∈ environ, world.accepts setting.1 setting.2)
          ∨ ∃ front rejected rest, entries = front ++ rejected :: rest
            ∧ world.taken rejected = none
            ∧ ∀ entry ∈ front, ∃ value, world.taken entry = some value
              ∧ environ.lookup entry.1 = some value := by
  have names {entries : List (String × Py)}
      (update : updateEntries interpreter flags (.start world environ sub) = some entries)
      : (entries.map Prod.fst).Nodup :=
    updateEntries_nodup settings update
  rw [runSubmissionLocally_environ]
  revert names
  cases updateEntries interpreter flags (RunState.start world environ sub) with
  | none =>
      refine fun _ => ⟨fun _ entries update => ?_, fun _ => rfl⟩
      cases update
  | some entries =>
      intro names
      refine Iff.trans (leftBehind_eq_iff distinct (names rfl))
        ⟨?_, fun all => all entries rfl⟩
      rintro holds _ ⟨rfl⟩
      exact holds

/-- A platform that rejects names and values with a NUL character. -/
def nulRejecting : World :=
  { answering (fun _ => false) with
    accepts := fun name value => !name.toList.contains '\x00' && !value.toList.contains '\x00' }

/-- A submission that sets two variables. -/
def twoSettings (first second : String) : Submission where
  labSpec := plainSpec (.list [])
  files := .dict []
  env := .dict [("A", .str first), ("B", .str second)]
  options := .dict []

/-- A submission with two different variables. -/
theorem twoSettings_distinctEnv (first second : String)
    : (twoSettings first second).DistinctEnv := by
  rintro _ ⟨rfl⟩
  have names : ["A", "B"].Nodup := by decide
  exact names

/-- Two variables that the platform takes are undone, and a rejected one does no harm after
one that has its present value.
-/
theorem environment_restored_two_settings
    : ((runSubmissionLocally plainInterpreter {}).run
          (.start nulRejecting [("PATH", "/bin")] (twoSettings "1" "2"))).2.environ
        = [("PATH", "/bin")]
      ∧ ((runSubmissionLocally plainInterpreter {}).run
          (.start nulRejecting [("PATH", "/bin"), ("A", "1")] (twoSettings "1" "\x00"))).2.environ
        = [("PATH", "/bin"), ("A", "1")] := by
  constructor
  · refine (environment_restored_iff plainInterpreter {} nulRejecting [("PATH", "/bin")]
      (twoSettings "1" "2") (by decide) (twoSettings_distinctEnv "1" "2")).mpr ?_
    rintro _ ⟨rfl⟩
    exact .inl ⟨by decide, by decide⟩
  · refine (environment_restored_iff plainInterpreter {} nulRejecting
      [("PATH", "/bin"), ("A", "1")] (twoSettings "1" "\x00") (by decide)
      (twoSettings_distinctEnv "1" "\x00")).mpr ?_
    rintro _ ⟨rfl⟩
    refine .inr ⟨[("A", .str "1")], ("B", .str "\x00"), [], rfl, by decide, ?_⟩
    intro entry member
    rw [List.mem_singleton.mp member]
    exact ⟨"1", by decide, by decide⟩

/-- A variable with a NUL character leaves the variable before it in the environment. -/
theorem rejected_setting_leaves_earlier
    : ((runSubmissionLocally plainInterpreter {}).run
        (.start nulRejecting [("PATH", "/bin")] (twoSettings "1" "\x00"))).2.environ
      = [("PATH", "/bin"), ("A", "1")] :=
  rfl

end PMKVLab.Runner
