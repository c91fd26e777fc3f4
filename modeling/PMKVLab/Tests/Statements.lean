import PMKVLab.Library.Assertions
import PMKVLab.Store.MapRefinement

/-! The statements of the tests in `basic_test.cc`: calls of the wrapper with assertions
about their answers. On the reference implementation each of them does what it would do to
a function from keys to values.
-/

namespace PMKVLab.Tests

open PMKVLab.Library PMKVLab.Store

/-- A statement of a test. `get` reads into an empty string, `countAll` into a counter that
holds the largest number, and `restart` is `Restart` of the fixture.
-/
inductive Statement
  | put (key value : Bytes)
  | get (key value : Bytes)
  | countAll (cnt : Nat)
  | restart
deriving DecidableEq, Repr

namespace Statement

section Machines

variable {State : Type}

/-- The calls that a statement makes. -/
def calls (path : String) (poolSize : Nat) : Statement → List Call
  | .put key value => [.put key value]
  | .get key _ => [.get key []]
  | .countAll _ => [.countAll (2 ^ 64 - 1)]
  | .restart => [.close, .open path poolSize false]

/-- The assertion about the answers. -/
def passes : Statement → List Observation → Bool
  | .put _ _, answers => answers = [.status .ok]
  | .get _ value, answers => answers = [.value .ok value]
  | .countAll cnt, answers => answers = [.count .ok cnt]
  | .restart, _ => true

/-- Perform a statement on a machine that answers calls. -/
def perform (step : Call → State → Observation × State) (path : String) (poolSize : Nat)
    (statement : Statement) (state : State)
    : Bool × State :=
  let (answers, next) := run step (statement.calls path poolSize) state
  (statement.passes answers, next)

end Machines

/-- The values that a statement stores are short. -/
def ShortValue : Statement → Prop
  | .put _ value => value.length < maxValLen
  | _ => True

end Statement

-----------------------------------------------------------------------------------------
-- Maps
-----------------------------------------------------------------------------------------

/-- The pool at `path` is the open one, and binds each key as `bound` does. -/
structure MapHolds (path : String) (bound : Bytes → Option Bytes) (state : MapState) : Prop where
  current : state.current = some path
  bindings : ∀ contents, state.pools path = some contents
    → ∀ key, contents.lookup key = bound key

section Maps

variable {creatable : String → Nat → Bool} {path : String} {poolSize : Nat}
  {bound : Bytes → Option Bytes} {state : MapState}

theorem MapHolds.contents? (holds : MapHolds path bound state)
    : ∃ contents, state.pools path = some contents
      ∧ state.contents? = some (path, contents)
      ∧ ∀ key, contents.lookup key = bound key := by
  obtain ⟨contents, pool, opened⟩ := MapState.contents?_of_current holds.current
  exact ⟨contents, pool, opened, holds.bindings contents pool⟩

theorem MapHolds.put (holds : MapHolds path bound state) (key value : Bytes)
    : PassesWith (MapHolds path (Function.update bound key (some value)))
        ((Statement.put key value).perform (MapState.step creatable) path poolSize state) := by
  obtain ⟨contents, -, opened, bindings⟩ := holds.contents?
  simp only [PassesWith, Statement.perform, Statement.calls, run_cons, run, MapState.step, opened]
  refine ⟨rfl, holds.current, ?_⟩
  intro written pool other
  have same : contents.insert key value = written := by
    simpa [MapState.write] using pool
  rw [← same, lookup_insert_eq, Function.update_apply, bindings]

theorem MapHolds.get (holds : MapHolds path bound state) {key value : Bytes}
    (binds : bound key = some value)
    : PassesWith (MapHolds path bound)
        ((Statement.get key value).perform (MapState.step creatable) path poolSize state) := by
  obtain ⟨contents, -, opened, bindings⟩ := holds.contents?
  have found : contents.lookup key = some value := (bindings key).trans binds
  simp only [PassesWith, Statement.perform, Statement.calls, run_cons, run, MapState.step, opened,
    found]
  exact ⟨by simp [Statement.passes], holds⟩

/-- A count reports the number of different keys. -/
theorem MapHolds.countAll (holds : MapHolds path bound state) {keys : List Bytes}
    (distinct : keys.Nodup) (listed : ∀ key, (bound key).isSome = true ↔ key ∈ keys)
    : PassesWith (MapHolds path bound)
        ((Statement.countAll keys.length).perform (MapState.step creatable) path poolSize
          state) := by
  obtain ⟨contents, -, opened, bindings⟩ := holds.contents?
  have members : contents.keys = keys.toFinset := by
    ext key
    rw [Finmap.mem_keys, ← Finmap.lookup_isSome, bindings, listed, List.mem_toFinset]
  simp only [PassesWith, Statement.perform, Statement.calls, run_cons, run, MapState.step, opened,
    members, List.toFinset_card_of_nodup distinct]
  exact ⟨by simp [Statement.passes], holds⟩

/-- A new pool binds nothing. -/
theorem MapHolds.create (closed : state.current = none) (absent : state.pools path = none)
    (room : creatable path poolSize = true)
    : (state.step creatable (.open path poolSize true)).1 = .opened true
      ∧ MapHolds path (fun _ => none)
          (state.step creatable (.open path poolSize true)).2 := by
  have shut : state.contents? = none := MapState.contents?_of_none closed
  have new : (state.pools path).isNone = true ∧ creatable path poolSize = true :=
    ⟨by rw [absent]; rfl, room⟩
  simp only [MapState.step, shut, if_true, if_pos new]
  refine ⟨trivial, rfl, ?_⟩
  intro contents pool key
  have empty : (∅ : Contents) = contents := by
    simpa [MapState.openAt] using pool
  rw [← empty]
  exact Finmap.lookup_empty key

/-- Closing and opening again keeps every binding. -/
theorem MapHolds.restart (holds : MapHolds path bound state)
    : PassesWith (MapHolds path bound)
        (Statement.restart.perform (MapState.step creatable) path poolSize state) := by
  obtain ⟨contents, pool, opened, bindings⟩ := holds.contents?
  have shut : (MapState.closed state.pools).contents? = none :=
    MapState.contents?_of_none rfl
  have present : ((MapState.closed state.pools).pools path).isSome = true := by
    simp [MapState.closed, pool]
  simp only [PassesWith, Statement.perform, Statement.calls, run_cons, run, MapState.step, opened,
    shut, Bool.false_eq_true, if_false, dif_pos present]
  refine ⟨rfl, rfl, ?_⟩
  intro found same
  exact holds.bindings found same

end Maps

-----------------------------------------------------------------------------------------
-- Sessions
-----------------------------------------------------------------------------------------

/-- The session has the pool at `path` open through the wrapper, and the pool binds each key
as `bound` does. All values are short enough to be read back.
-/
def Holds {E : Engine} (V : E.View) (path : String) (bound : Bytes → Option Bytes)
    (session : Session E)
    : Prop :=
  ∃ state, Related V session state ∧ state.Short ∧ MapHolds path bound state

section Sessions

variable {E : Engine} {V : E.View} (laws : E.CmapLaws V) (room : V.AlwaysRoom) {path : String}
  {poolSize : Nat} {bound : Bytes → Option Bytes} {session : Session E}

include laws room in
/-- A statement passes on a session as it does on the maps it is related to. -/
theorem Holds.of_maps {after : Bytes → Option Bytes} {statement : Statement}
    (short : statement.ShortValue) (holds : Holds V path bound session)
    (maps : ∀ state, MapHolds path bound state → PassesWith (MapHolds path after)
      (statement.perform (MapState.step V.creatable) path poolSize state))
    : PassesWith (Holds V path after)
        (statement.perform (Session.step .tests) path poolSize session) := by
  obtain ⟨state, related, shortState, mapHolds⟩ := holds
  obtain ⟨passes, mapAfter⟩ := maps state mapHolds
  have admitted : ∀ call ∈ statement.calls path poolSize, ∀ key value,
      call = .put key value → value.length < maxValLen := by
    intro call member key value same
    subst same
    cases statement with
    | put _ _ =>
        cases List.mem_singleton.mp member
        exact short
    | get | countAll | restart => simp [Statement.calls] at member
  obtain ⟨answers, next, shortNext⟩ := run_simulates
    (fun call => ∀ key value, call = Call.put key value → value.length < maxValLen)
    (fun session state => Related V session state ∧ state.Short)
    (by
      intro call session state bounded ⟨related, short⟩
      obtain ⟨answer, next⟩ := Session.step_simulates laws room .tests call short related
      exact ⟨answer, next, short.step V.creatable bounded⟩)
    (statement.calls path poolSize) admitted ⟨related, shortState⟩
  constructor
  · simp only [Statement.perform] at passes ⊢
    rw [answers]
    exact passes
  · exact ⟨_, next, shortNext, mapAfter⟩

include laws room in
theorem Holds.put (holds : Holds V path bound session) (key : Bytes) {value : Bytes}
    (short : value.length < maxValLen)
    : PassesWith (Holds V path (Function.update bound key (some value)))
        ((Statement.put key value).perform (Session.step .tests) path poolSize session) :=
  holds.of_maps laws room short (fun _ maps => maps.put key value)

include laws room in
theorem Holds.get (holds : Holds V path bound session) {key value : Bytes}
    (binds : bound key = some value)
    : PassesWith (Holds V path bound)
        ((Statement.get key value).perform (Session.step .tests) path poolSize session) :=
  holds.of_maps laws room trivial (fun _ maps => maps.get binds)

include laws room in
theorem Holds.countAll (holds : Holds V path bound session) {keys : List Bytes}
    (distinct : keys.Nodup) (listed : ∀ key, (bound key).isSome = true ↔ key ∈ keys) {cnt : Nat}
    (size : keys.length = cnt)
    : PassesWith (Holds V path bound)
        ((Statement.countAll cnt).perform (Session.step .tests) path poolSize session) := by
  subst size
  exact holds.of_maps laws room trivial (fun _ maps => maps.countAll distinct listed)

include laws room in
theorem Holds.restart (holds : Holds V path bound session)
    : PassesWith (Holds V path bound)
        (Statement.restart.perform (Session.step .tests) path poolSize session) :=
  holds.of_maps laws room trivial (fun _ maps => maps.restart)

end Sessions

end PMKVLab.Tests
