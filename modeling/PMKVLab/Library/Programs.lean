import Mathlib.Data.List.Basic

/-! Imperative programs over a mutable state that may raise. A raised exception keeps the
state it was raised in, so handlers and clean-up code run from there.
-/

namespace PMKVLab.Library

/-- A sequence that ends normally has a first part that ended normally. -/
theorem except_bind_eq_ok {Error Value Result : Type} {first : Except Error Value}
    {next : Value → Except Error Result} {result : Result}
    : first >>= next = .ok result ↔ ∃ value, first = .ok value ∧ next value = .ok result := by
  cases first with
  | error error => simp [bind, Except.bind]
  | ok value => simp [bind, Except.bind]

theorem except_ok_bind {Error Value Result : Type} (value : Value)
    (next : Value → Except Error Result)
    : Except.ok value >>= next = next value :=
  rfl

theorem except_bind_eq_error {Error Value Result : Type} {first : Except Error Value}
    {next : Value → Except Error Result} {error : Error}
    : first >>= next = .error error
      ↔ first = .error error ∨ ∃ value, first = .ok value ∧ next value = .error error := by
  cases first with
  | error error => simp [bind, Except.bind]
  | ok value => simp [bind, Except.bind]

/-- A loop of checks passes when each of them does. -/
theorem forM_eq_ok {Item Error : Type} {check : Item → Except Error PUnit} {items : List Item}
    (all : ∀ item ∈ items, check item = .ok ⟨⟩)
    : (forM items check : Except Error PUnit) = .ok ⟨⟩ := by
  induction items with
  | nil => rfl
  | cons item rest ih =>
      rw [List.forM_cons, all item List.mem_cons_self]
      exact ih fun other member => all other (List.mem_cons_of_mem item member)

/-- A loop of checks with one that fails raises what the first failing one raises. -/
theorem exists_error_of_forM {Item Error : Type} {check : Item → Except Error PUnit}
    {items : List Item} {item : Item} (member : item ∈ items) (fails : check item ≠ .ok ⟨⟩)
    : ∃ first ∈ items, ∃ error, check first = .error error
      ∧ (forM items check : Except Error PUnit) = .error error := by
  induction items with
  | nil => cases member
  | cons head rest ih =>
      rw [List.forM_cons]
      cases checked : check head with
      | error error => exact ⟨head, List.mem_cons_self, error, checked, rfl⟩
      | ok value =>
          have later : item ∈ rest := by
            rcases List.mem_cons.mp member with rfl | later
            · exact absurd checked fails
            · exact later
          obtain ⟨first, inside, error, raised, same⟩ := ih later
          exact ⟨first, List.mem_cons_of_mem head inside, error, raised, same⟩

/-- A loop with a guarded body is a loop over the items that pass the guard. -/
theorem forM_guarded {Item : Type} {M : Type → Type} [Monad M] [LawfulMonad M]
    (guard : Item → Bool) (body : Item → M PUnit) (items : List Item)
    : (forM items fun item => if guard item = true then body item else pure ⟨⟩)
      = (forM (items.filter guard) body : M PUnit) := by
  induction items with
  | nil => rfl
  | cons item rest ih =>
      rw [List.forM_cons, ih]
      cases passes : guard item with
      | true => rw [List.filter_cons_of_pos passes, List.forM_cons, if_pos rfl]
      | false =>
          rw [List.filter_cons_of_neg (by simp [passes]), if_neg (by decide), pure_bind]

/-- A loop that raises does so in one of its rounds, by induction on the items. -/
theorem exists_error_of_foldlM {Item Error Value : Type} {step : Value → Item → Except Error Value}
    {items : List Item} {value : Value} {error : Error}
    (raised : items.foldlM step value = .error error)
    : ∃ item ∈ items, ∃ reached, step reached item = .error error := by
  induction items generalizing value with
  | nil => cases raised
  | cons item rest ih =>
      rw [List.foldlM_cons] at raised
      cases first : step value item with
      | error other =>
          rw [first] at raised
          cases raised
          exact ⟨item, List.mem_cons_self, value, first⟩
      | ok next =>
          rw [first] at raised
          obtain ⟨later, member, reached, fails⟩ := ih raised
          exact ⟨later, List.mem_cons_of_mem item member, reached, fails⟩

/-- Applying an injective function to the result loses nothing. -/
theorem except_map_injective {Error Value Result : Type} {change : Value → Result}
    (injective : Function.Injective change) {first second : Except Error Value}
    (same : first.map change = second.map change)
    : first = second := by
  cases first <;> cases second <;> simp_all [Except.map, injective.eq_iff]

/-- Run from a state to a value or an exception, and a final state either way. -/
def Program (Error State Value : Type) : Type :=
  State → Except Error Value × State

namespace Program

variable {Error State Value Result : Type}

def run (program : Program Error State Value) (state : State) : Except Error Value × State :=
  program state

instance : Monad (Program Error State) where
  pure value := fun state => (.ok value, state)
  bind program next := fun state =>
    match program.run state with
    | (.ok value, after) => (next value).run after
    | (.error error, after) => (.error error, after)

/-- Read a part of the state. -/
def gets (part : State → Value) : Program Error State Value :=
  fun state => (.ok (part state), state)

def modify (change : State → State) : Program Error State Unit :=
  fun state => (.ok (), change state)

def raise (error : Error) : Program Error State Value :=
  fun state => (.error error, state)

/-- A computation that may raise and does not touch the state. -/
def lift (outcome : Except Error Value) : Program Error State Value :=
  fun state => (outcome, state)

/-- Run to the end or to an exception, and go on with what came of it. -/
def attempt (program : Program Error State Value)
    : Program Error State (Except Error Value) :=
  fun state =>
    let (outcome, after) := program.run state
    (.ok outcome, after)

/-- `try … finally`: the clean-up runs either way, and an exception of its own wins. -/
def ensure (program : Program Error State Value) (cleanup : Program Error State Unit)
    : Program Error State Value := do
  let outcome ← program.attempt
  cleanup
  lift outcome

/-- Run a program of a part of the state on that part. -/
def zoom {Part : Type} (part : State → Part) (replace : Part → State → State)
    (program : Program Error Part Value)
    : Program Error State Value :=
  fun state =>
    let (outcome, after) := program.run (part state)
    (outcome, replace after state)

variable (state : State)

@[simp]
theorem run_gets (part : State → Value)
    : (gets part : Program Error State Value).run state = (.ok (part state), state) :=
  rfl

@[simp]
theorem run_modify (change : State → State)
    : (modify change : Program Error State Unit).run state = (.ok (), change state) :=
  rfl

@[simp]
theorem run_lift (outcome : Except Error Value)
    : (lift outcome : Program Error State Value).run state = (outcome, state) :=
  rfl

@[simp]
theorem run_attempt (program : Program Error State Value)
    : program.attempt.run state = (.ok (program.run state).1, (program.run state).2) :=
  rfl

/-- A sequence goes on from the state its first part left, unless that part raised. -/
theorem run_bind (program : Program Error State Value)
    (next : Value → Program Error State Result)
    : (program >>= next).run state
      = match program.run state with
        | (.ok value, after) => (next value).run after
        | (.error error, after) => (.error error, after) :=
  rfl

/-- Sequences may be regrouped: the state and the first exception are passed on alike. -/
instance : LawfulMonad (Program Error State) :=
  LawfulMonad.mk' _
    (fun program => by
      funext state
      change (match program.run state with
        | (.ok value, after) => (.ok value, after)
        | (.error error, after) => (.error error, after)) = program.run state
      rcases program.run state with ⟨outcome | outcome, after⟩ <;> rfl)
    (fun value next => rfl)
    (fun program next last => by
      funext state
      change ((program >>= next) >>= last).run state
        = (program >>= fun value => next value >>= last).run state
      rw [run_bind, run_bind, run_bind]
      rcases program.run state with ⟨outcome | outcome, after⟩ <;> rfl)

/-- Past a part that ends normally. -/
theorem run_bind_of_ok {program : Program Error State Value}
    {next : Value → Program Error State Result} {state after : State} {value : Value}
    (ended : program.run state = (.ok value, after))
    : (program >>= next).run state = (next value).run after := by
  rw [run_bind, ended]

/-- A sequence ends normally when both of its parts do. -/
theorem run_bind_eq_ok {program : Program Error State Value}
    {next : Value → Program Error State Result} {state after : State} {result : Result}
    : (program >>= next).run state = (.ok result, after)
      ↔ ∃ value middle, program.run state = (.ok value, middle)
        ∧ (next value).run middle = (.ok result, after) := by
  rw [run_bind]
  rcases program.run state with ⟨error | value, middle⟩
  · simp
  · simp

/-- Past a computation that does not touch the state. -/
theorem run_lift_bind_eq_ok {outcome : Except Error Value}
    {next : Value → Program Error State Result} {state after : State} {result : Result}
    : (lift outcome >>= next).run state = (.ok result, after)
      ↔ ∃ value, outcome = .ok value ∧ (next value).run state = (.ok result, after) := by
  rw [run_bind_eq_ok]
  constructor
  · rintro ⟨value, middle, lifted, ended⟩
    cases lifted
    exact ⟨value, rfl, ended⟩
  · rintro ⟨value, rfl, ended⟩
    exact ⟨value, state, rfl, ended⟩

/-- A loop of checks does not touch the state. -/
theorem run_forM_lift {Item : Type} (check : Item → Except Error PUnit) (items : List Item)
    : (forM items fun item => lift (check item) : Program Error State PUnit).run state
      = ((forM items check : Except Error PUnit), state) := by
  induction items with
  | nil => rfl
  | cons item rest ih =>
      rw [List.forM_cons, List.forM_cons, run_bind, run_lift]
      cases check item with
      | error error => rfl
      | ok value => exact ih

/-- Clean-up runs from the state in which the program ended or raised. -/
theorem run_ensure (program : Program Error State Value) (cleanup : Program Error State Unit)
    : (program.ensure cleanup).run state
      = match cleanup.run (program.run state).2 with
        | (.ok _, after) => ((program.run state).1, after)
        | (.error error, after) => (.error error, after) := by
  unfold ensure
  rw [run_bind_of_ok (run_attempt state program), run_bind]
  rcases cleanup.run (program.run state).2 with ⟨outcome | outcome, after⟩ <;> rfl

-----------------------------------------------------------------------------------------
-- Invariants of the state
-----------------------------------------------------------------------------------------

/-- The program keeps a property of the state, whether it ends or raises. -/
def Keeps (property : State → Prop) (program : Program Error State Value) : Prop :=
  ∀ state, property state → property (program.run state).2

variable {property : State → Prop}

theorem keeps_lift (outcome : Except Error Value)
    : (lift outcome : Program Error State Value).Keeps property :=
  fun _ holds => holds

theorem keeps_pure (value : Value) : (pure value : Program Error State Value).Keeps property :=
  fun _ holds => holds

theorem keeps_raise (error : Error)
    : (raise error : Program Error State Value).Keeps property :=
  fun _ holds => holds

/-- A sequence keeps what its parts keep. -/
theorem Keeps.bind {program : Program Error State Value}
    {next : Value → Program Error State Result}
    (first : program.Keeps property) (later : ∀ value, (next value).Keeps property)
    : (program >>= next).Keeps property := by
  intro state holds
  have middle := first state holds
  rw [run_bind]
  revert middle
  rcases program.run state with ⟨error | value, after⟩
  · exact fun kept => kept
  · exact later value after

/-- After a lifted computation only the value it really has need be considered. -/
theorem keeps_lift_bind {outcome : Except Error Value}
    {next : Value → Program Error State Result}
    (later : ∀ value, outcome = .ok value → (next value).Keeps property)
    : (lift outcome >>= next).Keeps property := by
  cases outcome with
  | error error => exact fun _ holds => holds
  | ok value => exact later value rfl

theorem keeps_gets (part : State → Value)
    : (gets part : Program Error State Value).Keeps property :=
  fun _ holds => holds

/-- A loop keeps what each of its rounds keeps, by induction on the items. -/
theorem keeps_foldlM {Item : Type} {step : Value → Item → Program Error State Value}
    {items : List Item}
    (each : ∀ item ∈ items, ∀ value, (step value item).Keeps property) (value : Value)
    : (items.foldlM step value).Keeps property := by
  induction items generalizing value with
  | nil => exact keeps_pure value
  | cons item rest ih =>
      rw [List.foldlM_cons]
      exact (each item List.mem_cons_self value).bind
        (ih fun other member => each other (List.mem_cons_of_mem item member))

theorem keeps_forM {Item : Type} {body : Item → Program Error State PUnit}
    {items : List Item} (each : ∀ item ∈ items, (body item).Keeps property)
    : (forM items body : Program Error State PUnit).Keeps property := by
  induction items with
  | nil => exact keeps_pure _
  | cons item rest ih =>
      rw [List.forM_cons]
      exact (each item List.mem_cons_self).bind fun _ =>
        ih fun other member => each other (List.mem_cons_of_mem item member)

-----------------------------------------------------------------------------------------
-- Pre- and postconditions
-----------------------------------------------------------------------------------------

/-- From a state with the first property the program ends with the second, or raises in a
state with the third.
-/
def Meets (before : State → Prop) (program : Program Error State Value)
    (after : Value → State → Prop) (failed : State → Prop) : Prop :=
  ∀ state, before state →
    match program.run state with
    | (.ok value, ended) => after value ended
    | (.error _, ended) => failed ended

section Meets

variable {before : State → Prop} {after : Value → State → Prop} {failed : State → Prop}

theorem meets_modify {before : State → Prop} {after : Unit → State → Prop}
    {failed : State → Prop} {change : State → State}
    (changed : ∀ state, before state → after () (change state))
    : (modify change : Program Error State Unit).Meets before after failed :=
  changed

/-- The value read is known to be the part of the state it was read from. -/
theorem meets_gets (part : State → Value)
    : (gets part : Program Error State Value).Meets before
        (fun value state => before state ∧ value = part state) failed :=
  fun _ holds => ⟨holds, rfl⟩

theorem Meets.bind {program : Program Error State Value}
    {next : Value → Program Error State Result} {last : Result → State → Prop}
    (first : program.Meets before after failed)
    (later : ∀ value, (next value).Meets (after value) last failed)
    : (program >>= next).Meets before last failed := by
  intro state holds
  have middle := first state holds
  rw [run_bind]
  revert middle
  rcases program.run state with ⟨error | value, ended⟩
  · exact fun raised => raised
  · exact fun reached => later value ended reached

/-- More may be known before, and less claimed afterwards. -/
theorem Meets.weaken {program : Program Error State Value} {earlier : State → Prop}
    {later : Value → State → Prop} (meets : program.Meets before after failed)
    (stronger : ∀ state, earlier state → before state)
    (weaker : ∀ value state, after value state → later value state)
    : program.Meets earlier later failed := by
  intro state holds
  have met := meets state (stronger state holds)
  revert met
  rcases program.run state with ⟨error | value, ended⟩
  · exact fun raised => raised
  · exact weaker value ended

/-- Less may be claimed of where an exception was raised. -/
theorem Meets.raises {program : Program Error State Value} {stopped : State → Prop}
    (meets : program.Meets before after failed)
    (weaker : ∀ state, failed state → stopped state)
    : program.Meets before after stopped := by
  intro state holds
  have met := meets state holds
  revert met
  rcases program.run state with ⟨error | value, ended⟩
  · exact weaker ended
  · exact fun reached => reached

theorem Keeps.meets {program : Program Error State Value} {property : State → Prop}
    (kept : program.Keeps property)
    : program.Meets property (fun _ => property) property := by
  intro state holds
  have after := kept state holds
  revert after
  rcases program.run state with ⟨error | value, ended⟩
  · exact fun raised => raised
  · exact fun reached => reached

/-- What holds however the program ends. -/
theorem Meets.ends {program : Program Error State Value} {property : State → Prop}
    (meets : program.Meets before (fun _ => property) property) {state : State}
    (holds : before state)
    : property (program.run state).2 := by
  have met := meets state holds
  revert met
  rcases program.run state with ⟨error | value, ended⟩
  · exact fun raised => raised
  · exact fun reached => reached

/-- A loop meets the invariant of its rounds, by induction on the items. -/
theorem meets_forM {Item : Type} {body : Item → Program Error State PUnit}
    {invariant : State → Prop} {items : List Item}
    (each : ∀ item ∈ items, (body item).Meets invariant (fun _ => invariant) failed)
    : (forM items body : Program Error State PUnit).Meets invariant (fun _ => invariant)
        failed := by
  induction items with
  | nil => exact fun _ holds => holds
  | cons item rest ih =>
      rw [List.forM_cons]
      exact (each item List.mem_cons_self).bind fun _ =>
        ih fun other member => each other (List.mem_cons_of_mem item member)

end Meets

end Program

end PMKVLab.Library
