import PMKVLab.Library.Buffers
import PMKVLab.Tests.ManyKeys

/-! The tests of `basic_test.cc` with fixed keys. On the reference implementation such a test
has the verdict that it has on a finite map, where it can be evaluated.
-/

namespace PMKVLab.Tests

open PMKVLab.Library PMKVLab.Store

-----------------------------------------------------------------------------------------
-- Lines
-----------------------------------------------------------------------------------------

/-- A line of a test. The string variables of its body are numbered in the order of their
declarations. `assertCount` stands for the lines that set `cnt` to the largest number, call
`count_all` and compare.
-/
inductive Line
  /-- A `put` whose status is ignored. -/
  | put (key value : Bytes)
  | assertPut (key value : Bytes)
  /-- The key is found, and the variable then holds the value. -/
  | assertGet (key : Bytes) (target : Nat) (value : Bytes)
  /-- The key is not found. -/
  | assertMissing (key : Bytes) (target : Nat)
  | assertRemove (key : Bytes) (expected : Status)
  | assertExists (key : Bytes) (expected : Status)
  | assertCount (cnt : Nat)
  | assign (target : Nat) (value : Bytes)
  | assertString (target : Nat) (value : Bytes)
deriving DecidableEq, Repr

/-- The string variables of a body. -/
abbrev Strings := Nat → Bytes

/-- What a body works on. -/
structure Body (State : Type) where
  store : State
  strings : Strings

/-- A string is empty where it is declared. -/
def Body.start {State : Type} (store : State) : Body State := ⟨store, fun _ => []⟩

namespace Line

/-- The call that a line makes, if it makes one. -/
def call (strings : Strings) : Line → Option Call
  | .put key value => some (.put key value)
  | .assertPut key value => some (.put key value)
  | .assertGet key target _ => some (.get key (strings target))
  | .assertMissing key target => some (.get key (strings target))
  | .assertRemove key _ => some (.remove key)
  | .assertExists key _ => some (.existsKey key)
  | .assertCount _ => some (.countAll (2 ^ 64 - 1))
  | .assign _ _ => none
  | .assertString _ _ => none

/-- A `get` leaves what it has read in its variable. -/
def readInto (strings : Strings) (target : Nat) : Observation → Strings
  | .value _ read => Function.update strings target read
  | _ => strings

/-- The answer of a `get` that does not find its key. -/
def isMissing : Observation → Bool
  | .value s _ => s = .notFound
  | _ => false

/-- Whether the assertion of a line holds, and the variables after it. -/
def check (strings : Strings) (answer : Observation) : Line → Bool × Strings
  | .put _ _ => (true, strings)
  | .assertPut _ _ => (answer = .status .ok, strings)
  | .assertGet _ target value => (answer = .value .ok value, readInto strings target answer)
  | .assertMissing _ target => (isMissing answer, readInto strings target answer)
  | .assertRemove _ expected => (answer = .status expected, strings)
  | .assertExists _ expected => (answer = .status expected, strings)
  | .assertCount cnt => (answer = .count .ok cnt, strings)
  | .assign target value => (true, Function.update strings target value)
  | .assertString target value => (strings target = value, strings)

/-- Perform a line on a store that answers calls. -/
def perform {State : Type} (step : Call → State → Observation × State) (line : Line)
    (body : Body State)
    : Bool × Body State :=
  let (answer, store) :=
    match line.call body.strings with
    | some call => step call body.store
    | none => (.skipped, body.store)
  let (passed, strings) := line.check body.strings answer
  (passed, ⟨store, strings⟩)

/-- The value that a line stores is short. -/
def ShortValue : Line → Prop
  | .put _ value => value.length < maxValLen
  | .assertPut _ value => value.length < maxValLen
  | _ => True

instance : DecidablePred ShortValue := fun line =>
  match line with
  | .put _ value => inferInstanceAs (Decidable (value.length < maxValLen))
  | .assertPut _ value => inferInstanceAs (Decidable (value.length < maxValLen))
  | .assertGet _ _ _ | .assertMissing _ _ | .assertRemove _ _ | .assertExists _ _
  | .assertCount _ | .assign _ _ | .assertString _ _ => inferInstanceAs (Decidable True)

end Line

/-- The lines of a body, in order up to the first failure. -/
def runBody {E : Engine} (lines : List Line) (session : Session E)
    : Option (Bool × Session E) :=
  let (passed, body) :=
    runStatements (Line.perform (Session.step .tests)) lines (Body.start session)
  some (passed, body.store)

/-- A test with these lines after its first assertion. -/
def fixedKeysTest {E : Engine} (remove : E.State → E.State) (path : String) (poolSize : Nat)
    (lines : List Line)
    : E.State → Option (Bool × E.State) :=
  inFixture remove path poolSize (runBody lines)

-----------------------------------------------------------------------------------------
-- The verdict on a finite map
-----------------------------------------------------------------------------------------

/-- What a call of an open store means on its contents. -/
def answer (call : Call) (contents : Contents) : Observation × Contents :=
  match call with
  | .put key value => (.status .ok, contents.insert key value)
  | .get key value =>
      match contents.lookup key with
      | none => (.value .notFound value, contents)
      | some bound => (.value .ok bound, contents)
  | .remove key =>
      (.status (if key ∈ contents then .ok else .notFound), contents.erase key)
  | .existsKey key => (.status (if key ∈ contents then .ok else .notFound), contents)
  | .countAll _ => (.count .ok contents.keys.card, contents)
  | .open _ _ _ | .close => (.skipped, contents)

/-- The verdict of a body on an empty map. -/
def mapVerdict (lines : List Line) : Bool :=
  (runStatements (Line.perform answer) lines (Body.start ∅)).1

/-- Maps that hold the same bindings answer alike: a call that neither opens nor closes acts
on the open map alone.
-/
theorem MapHolds.answer {creatable : String → Nat → Bool} {path : String}
    {contents : Contents} {state : MapState} (holds : MapHolds path contents.lookup state)
    {strings : Strings} {line : Line} {call : Call} (calls : line.call strings = some call)
    : (state.step creatable call).1 = (answer call contents).1
      ∧ MapHolds path (Tests.answer call contents).2.lookup (state.step creatable call).2 := by
  obtain ⟨found, pool, opened, bindings⟩ := holds.contents?
  obtain rfl : found = contents := Finmap.ext_lookup bindings
  have written (next : Contents) : MapHolds path next.lookup (state.write path next) := by
    refine ⟨holds.current, fun other same => ?_⟩
    have equal : next = other := by
      simpa [MapState.write] using same
    rw [equal]
    exact fun _ => rfl
  have kept : MapHolds path found.lookup state := holds
  cases line with
  | put key value | assertPut key value =>
      cases calls
      simp only [MapState.step, opened]
      exact ⟨rfl, written _⟩
  | assertGet key | assertMissing key =>
      cases calls
      cases bound : found.lookup key <;>
        simp only [MapState.step, opened, Tests.answer, bound] <;> exact ⟨trivial, kept⟩
  | assertRemove key =>
      cases calls
      simp only [MapState.step, opened]
      exact ⟨rfl, written _⟩
  | assertExists key | assertCount cnt =>
      cases calls
      simp only [MapState.step, opened]
      exact ⟨rfl, kept⟩
  | assign | assertString => cases calls

section Sessions

variable {E : Engine} {V : E.View} (laws : E.CmapLaws V) (room : V.AlwaysRoom) {path : String}
  {poolSize : Nat}

include laws room in
/-- A session answers the call of a line as its contents do. -/
theorem Holds.answer {contents : Contents} {session : Session E}
    (holds : Holds V path contents.lookup session) {strings : Strings} {line : Line}
    {call : Call} (short : line.ShortValue) (calls : line.call strings = some call)
    : (Session.step .tests call session).1 = (Tests.answer call contents).1
      ∧ Holds V path (Tests.answer call contents).2.lookup
          (Session.step .tests call session).2 := by
  obtain ⟨state, related, shortState, mapHolds⟩ := holds
  obtain ⟨same, next⟩ := Session.step_simulates laws room .tests call shortState related
  obtain ⟨answers, nextHolds⟩ := mapHolds.answer calls
  refine ⟨same.trans answers, _, next, shortState.step V.creatable ?_, nextHolds⟩
  intro key value put
  subst put
  cases line with
  | put | assertPut =>
      cases calls
      exact short
  | assertGet | assertMissing | assertRemove | assertExists | assertCount | assign
  | assertString => cases calls

include laws room in
/-- From an empty store a body has its verdict on the empty map. -/
theorem runBody_ends {lines : List Line} (short : ∀ line ∈ lines, line.ShortValue)
    (session : Session E) (empty : Holds V path (fun _ => none) session)
    : ∃ bound final, runBody lines session = some (mapVerdict lines, final)
      ∧ Holds V path bound final := by
  -- the same variables, and a session that holds the map
  let related (left : Body (Session E)) (right : Body Contents) : Prop :=
    left.strings = right.strings ∧ Holds V path right.store.lookup left.store
  have simulates (line : Line) (left : Body (Session E)) (right : Body Contents)
      (short : line.ShortValue) (same : related left right)
      : (line.perform (Session.step .tests) left).1 = (line.perform answer right).1
        ∧ related (line.perform (Session.step .tests) left).2
            (line.perform answer right).2 := by
    obtain ⟨store, strings⟩ := left
    obtain ⟨rfl, holds⟩ := same
    cases calls : line.call right.strings with
    | none =>
        simp only [Line.perform, calls]
        exact ⟨trivial, rfl, holds⟩
    | some call =>
        obtain ⟨answers, next⟩ := holds.answer laws room short calls
        simp only [Line.perform, calls, answers]
        exact ⟨trivial, rfl, next⟩
  have start : related (Body.start session) (Body.start ∅) := by
    refine ⟨rfl, ?_⟩
    have nothing : (∅ : Contents).lookup = fun _ => none := funext Finmap.lookup_empty
    simp only [Body.start, nothing]
    exact empty
  obtain ⟨verdict, -, holds⟩ := runStatements_simulates Line.ShortValue related simulates
    short start
  exact ⟨_, _, congrArg (fun passed => some (passed, _)) verdict, holds⟩

end Sessions

-----------------------------------------------------------------------------------------
-- The tests
-----------------------------------------------------------------------------------------

def basicTest : List Line :=
  [.put (ascii "key1") (ascii "value1"), .assertGet (ascii "key1") 0 (ascii "value1")]

def simpleTest : List Line :=
  [.assertCount 0, .assertExists (ascii "key1") .notFound, .assertMissing (ascii "key1") 0,
    .assertPut (ascii "key1") (ascii "value1"), .assertCount 1,
    .assertExists (ascii "key1") .ok, .assertGet (ascii "key1") 0 (ascii "value1")]

/-- The variables are `value`, `value2` and `value3`. -/
def binaryKeyTest : List Line :=
  [.assertCount 0, .assertExists (ascii "a") .notFound,
    .assertPut (ascii "a") (ascii "should_not_change"), .assertCount 1,
    .assertExists (ascii "a") .ok, .assertExists (ascii "a\x00b") .notFound,
    .assertPut (ascii "a\x00b") (ascii "stuff"), .assertCount 2, .assertExists (ascii "a") .ok,
    .assertExists (ascii "a\x00b") .ok, .assertGet (ascii "a\x00b") 0 (ascii "stuff"),
    .assertGet (ascii "a") 1 (ascii "should_not_change"), .assertRemove (ascii "a\x00b") .ok,
    .assertCount 1, .assertExists (ascii "a") .ok, .assertExists (ascii "a\x00b") .notFound,
    .assertMissing (ascii "a\x00b") 2, .assertGet (ascii "a") 2 (ascii "should_not_change")]

/-- The assertion about the length follows from the one about the value. -/
def binaryValueTest : List Line :=
  [.assertPut (ascii "key1") (ascii "A\x00B\x00\x00C"),
    .assertGet (ascii "key1") 0 (ascii "A\x00B\x00\x00C")]

def emptyKeyTest : List Line :=
  [.assertCount 0, .assertPut (ascii "") (ascii "empty"), .assertCount 1,
    .assertPut (ascii " ") (ascii "single-space"), .assertCount 2,
    .assertPut (ascii "\t\t") (ascii "two-tab"), .assertCount 3, .assertExists (ascii "") .ok,
    .assertGet (ascii "") 0 (ascii "empty"), .assertExists (ascii " ") .ok,
    .assertGet (ascii " ") 1 (ascii "single-space"), .assertExists (ascii "\t\t") .ok,
    .assertGet (ascii "\t\t") 2 (ascii "two-tab")]

def emptyValueTest : List Line :=
  [.assertCount 0, .assertPut (ascii "empty") (ascii ""), .assertCount 1,
    .assertPut (ascii "single-space") (ascii " "), .assertCount 2,
    .assertPut (ascii "two-tab") (ascii "\t\t"), .assertCount 3,
    .assertGet (ascii "empty") 0 (ascii ""), .assertGet (ascii "single-space") 1 (ascii " "),
    .assertGet (ascii "two-tab") 2 (ascii "\t\t")]

def getClearExternalValueTest : List Line :=
  [.assertPut (ascii "key1") (ascii "cool"), .assign 0 (ascii "super"),
    .assertGet (ascii "key1") 0 (ascii "cool"), .assign 0 (ascii "super"),
    .assertMissing (ascii "non_existent_key") 0, .assertString 0 (ascii "super")]

def getHeadlessTest : List Line :=
  [.assertExists (ascii "waldo") .notFound, .assertMissing (ascii "waldo") 0]

def getMultipleTest : List Line :=
  [.assertPut (ascii "abc") (ascii "A1"), .assertPut (ascii "def") (ascii "B2"),
    .assertPut (ascii "hij") (ascii "C3"), .assertPut (ascii "jkl") (ascii "D4"),
    .assertPut (ascii "mno") (ascii "E5"), .assertCount 5, .assertExists (ascii "abc") .ok,
    .assertGet (ascii "abc") 0 (ascii "A1"), .assertExists (ascii "def") .ok,
    .assertGet (ascii "def") 1 (ascii "B2"), .assertExists (ascii "hij") .ok,
    .assertGet (ascii "hij") 2 (ascii "C3"), .assertExists (ascii "jkl") .ok,
    .assertGet (ascii "jkl") 3 (ascii "D4"), .assertExists (ascii "mno") .ok,
    .assertGet (ascii "mno") 4 (ascii "E5")]

def getMultiple2Test : List Line :=
  [.assertPut (ascii "key1") (ascii "value1"), .assertPut (ascii "key2") (ascii "value2"),
    .assertPut (ascii "key3") (ascii "value3"), .assertRemove (ascii "key2") .ok,
    .assertPut (ascii "key3") (ascii "VALUE3"), .assertCount 2,
    .assertGet (ascii "key1") 0 (ascii "value1"), .assertMissing (ascii "key2") 1,
    .assertGet (ascii "key3") 2 (ascii "VALUE3")]

def getNonexistentTest : List Line :=
  [.assertPut (ascii "key1") (ascii "value1"), .assertExists (ascii "waldo") .notFound,
    .assertMissing (ascii "waldo") 0]

/-- The new values have the same size, a longer one and a shorter one. -/
def putTest : List Line :=
  [.assertCount 0, .assertPut (ascii "key1") (ascii "value1"), .assertCount 1,
    .assertGet (ascii "key1") 0 (ascii "value1"), .assertPut (ascii "key1") (ascii "VALUE1"),
    .assertCount 1, .assertGet (ascii "key1") 1 (ascii "VALUE1"),
    .assertPut (ascii "key1") (ascii "new_value"), .assertCount 1,
    .assertGet (ascii "key1") 2 (ascii "new_value"), .assertPut (ascii "key1") (ascii "?"),
    .assertCount 1, .assertGet (ascii "key1") 3 (ascii "?")]

def putKeysOfDifferentSizesTest : List Line :=
  [.assertPut (ascii "123456789ABCDE") (ascii "A"), .assertCount 1,
    .assertGet (ascii "123456789ABCDE") 0 (ascii "A"),
    .assertPut (ascii "123456789ABCDEF") (ascii "B"), .assertCount 2,
    .assertGet (ascii "123456789ABCDEF") 1 (ascii "B"),
    .assertPut (ascii "12345678ABCDEFG") (ascii "C"), .assertCount 3,
    .assertGet (ascii "12345678ABCDEFG") 2 (ascii "C"),
    .assertPut (ascii "123456789") (ascii "D"), .assertCount 4,
    .assertGet (ascii "123456789") 3 (ascii "D"),
    .assertPut (ascii "123456789ABCDEFGHI") (ascii "E"), .assertCount 5,
    .assertGet (ascii "123456789ABCDEFGHI") 4 (ascii "E")]

def putValuesOfDifferentSizesTest : List Line :=
  [.assertPut (ascii "A") (ascii "123456789ABCDE"), .assertCount 1,
    .assertGet (ascii "A") 0 (ascii "123456789ABCDE"),
    .assertPut (ascii "B") (ascii "123456789ABCDEF"), .assertCount 2,
    .assertGet (ascii "B") 1 (ascii "123456789ABCDEF"),
    .assertPut (ascii "C") (ascii "12345678ABCDEFG"), .assertCount 3,
    .assertGet (ascii "C") 2 (ascii "12345678ABCDEFG"),
    .assertPut (ascii "D") (ascii "123456789"), .assertCount 4,
    .assertGet (ascii "D") 3 (ascii "123456789"),
    .assertPut (ascii "E") (ascii "123456789ABCDEFGHI"), .assertCount 5,
    .assertGet (ascii "E") 4 (ascii "123456789ABCDEFGHI")]

def removeAllTest : List Line :=
  [.assertCount 0, .assertPut (ascii "tmpkey") (ascii "tmpvalue1"), .assertCount 1,
    .assertRemove (ascii "tmpkey") .ok, .assertCount 0,
    .assertExists (ascii "tmpkey") .notFound, .assertMissing (ascii "tmpkey") 0]

def removeAndInsertTest : List Line :=
  [.assertCount 0, .assertPut (ascii "tmpkey") (ascii "tmpvalue1"), .assertCount 1,
    .assertRemove (ascii "tmpkey") .ok, .assertCount 0,
    .assertExists (ascii "tmpkey") .notFound, .assertMissing (ascii "tmpkey") 0,
    .assertPut (ascii "tmpkey1") (ascii "tmpvalue1"), .assertCount 1,
    .assertExists (ascii "tmpkey1") .ok, .assertGet (ascii "tmpkey1") 0 (ascii "tmpvalue1"),
    .assertRemove (ascii "tmpkey1") .ok, .assertCount 0,
    .assertExists (ascii "tmpkey1") .notFound, .assertMissing (ascii "tmpkey1") 0]

def removeExistingTest : List Line :=
  [.assertCount 0, .assertPut (ascii "tmpkey1") (ascii "tmpvalue1"), .assertCount 1,
    .assertPut (ascii "tmpkey2") (ascii "tmpvalue2"), .assertCount 2,
    .assertRemove (ascii "tmpkey1") .ok, .assertCount 1,
    .assertRemove (ascii "tmpkey1") .notFound, .assertCount 1,
    .assertExists (ascii "tmpkey1") .notFound, .assertMissing (ascii "tmpkey1") 0,
    .assertExists (ascii "tmpkey2") .ok, .assertGet (ascii "tmpkey2") 0 (ascii "tmpvalue2")]

def removeHeadlessTest : List Line :=
  [.assertRemove (ascii "nada") .notFound]

def removeNonexistentTest : List Line :=
  [.assertPut (ascii "key1") (ascii "value1"), .assertRemove (ascii "nada") .notFound,
    .assertExists (ascii "key1") .ok]

/-- All of them, in the order of the source. -/
def fixedKeysTests : List (List Line) :=
  [basicTest, simpleTest, binaryKeyTest, binaryValueTest, emptyKeyTest, emptyValueTest,
    getClearExternalValueTest, getHeadlessTest, getMultipleTest, getMultiple2Test,
    getNonexistentTest, putTest, putKeysOfDifferentSizesTest, putValuesOfDifferentSizesTest,
    removeAllTest, removeAndInsertTest, removeExistingTest, removeHeadlessTest,
    removeNonexistentTest]

theorem fixedKeysTests_short : ∀ lines ∈ fixedKeysTests, ∀ line ∈ lines, line.ShortValue := by
  decide +kernel

/-- The tests are right about maps. -/
theorem fixedKeysTests_mapVerdict : ∀ lines ∈ fixedKeysTests, mapVerdict lines = true := by
  decide +kernel

/-- On the reference implementation a test with fixed keys has the verdict that it has on a
finite map, whatever the pools hold before it and whatever it asserts, and it leaves the
engine idle. So a test fails a correct store only if it is wrong about maps.
-/
theorem fixedKeysTest_verdict {E : Engine} {V : E.View} (laws : E.CmapLaws V)
    (room : V.AlwaysRoom) {path : String} {poolSize : Nat} {remove : E.State → E.State}
    (removes : RemovesPool V path remove) (creatable : V.creatable path poolSize = true)
    {engine : E.State} (idle : Idle V engine) {lines : List Line}
    (short : ∀ line ∈ lines, line.ShortValue)
    : ∃ final,
      fixedKeysTest remove path poolSize lines engine = some (mapVerdict lines, final)
      ∧ Idle V final :=
  inFixture_ends laws room removes creatable idle (runBody_ends laws room short)

/-- Witness: a test that is wrong about maps. -/
theorem fixedKeysTest_verdict_wrong
    : mapVerdict [.assertPut [1] [2], .assertGet [1] 0 [3]] = false
      ∧ ∃ final, @fixedKeysTest tableEngine (removeTable "/mnt/ramdisk/test")
          "/mnt/ramdisk/test" 536870912 [.assertPut [1] [2], .assertGet [1] 0 [3]]
          TableState.empty
          = some (mapVerdict [.assertPut [1] [2], .assertGet [1] 0 [3]], final)
        ∧ Idle tableView final :=
  ⟨by decide +kernel, fixedKeysTest_verdict tableEngine_cmapLaws tableView_alwaysRoom
    (removeTable_removes _) (by decide) emptyTable_idle (by decide)⟩

end PMKVLab.Tests
