import PMKVLab.Library.Interleaving
import PMKVLab.Recovery.SanityCheck
import PMKVLab.Tests.Statements

/-! The tests of `basic_test.cc` that store many keys: the four large ones, which write and
read back keys in either order and may restart in between, and the one with threads.
-/

namespace PMKVLab.Tests

open PMKVLab.Library PMKVLab.Store PMKVLab.Recovery

-----------------------------------------------------------------------------------------
-- Programs that read what they have written
-----------------------------------------------------------------------------------------

/-- The keys that a program puts, in order. -/
def putKeys : List Statement → List Bytes
  | [] => []
  | .put key _ :: rest => key :: putKeys rest
  | _ :: rest => putKeys rest

theorem putKeys_append (first second : List Statement)
    : putKeys (first ++ second) = putKeys first ++ putKeys second := by
  induction first with
  | nil => rfl
  | cons statement rest ih => cases statement <;> simp [putKeys, ih]

/-- Every listed key is bound to its value. -/
def binding (valueOf : Bytes → Bytes) (keys : List Bytes) (key : Bytes) : Option Bytes :=
  if key ∈ keys then some (valueOf key) else none

/-- The program puts each key with its own value, and gets only keys that are known or that
it has put before.
-/
def ReadsOwn (valueOf : Bytes → Bytes) : (known : List Bytes) → List Statement → Prop
  | _, [] => True
  | known, .put key value :: rest =>
      value = valueOf key ∧ value.length < maxValLen ∧ ReadsOwn valueOf (known ++ [key]) rest
  | known, .get key value :: rest =>
      value = valueOf key ∧ key ∈ known ∧ ReadsOwn valueOf known rest
  | _, _ :: _ => False

section ReadsOwn

variable {valueOf : Bytes → Bytes}

/-- A program in two parts: the second knows what the first has put. By induction on the
first part.
-/
theorem readsOwn_append {known : List Bytes} {first second : List Statement}
    : ReadsOwn valueOf known (first ++ second)
      ↔ ReadsOwn valueOf known first ∧ ReadsOwn valueOf (known ++ putKeys first) second := by
  induction first generalizing known with
  | nil => simp [ReadsOwn, putKeys]
  | cons statement rest ih =>
      cases statement with
      | put key value =>
          simp only [List.cons_append, ReadsOwn, ih, putKeys, List.append_assoc,
            List.nil_append, and_assoc]
      | get key value => simp only [List.cons_append, ReadsOwn, ih, putKeys, and_assoc]
      | countAll | restart => simp [ReadsOwn]

theorem binding_put {keys more : List Bytes} {key : Bytes}
    (members : ∀ other, other ∈ more ↔ other ∈ keys ∨ other = key)
    : Function.update (binding valueOf keys) key (some (valueOf key)) = binding valueOf more := by
  funext other
  by_cases same : other = key
  · subst same
    simp [binding, members]
  · simp [binding, members, same]

variable {E : Engine} {V : E.View} (laws : E.CmapLaws V) (room : V.AlwaysRoom) {path : String}
  (poolSize : Nat)

include laws room in
/-- A statement of such a program passes on every store that binds the keys it knows, and
binds the key it puts.
-/
theorem ReadsOwn.perform {known keys more : List Bytes} {statement : Statement}
    {rest : List Statement} (reads : ReadsOwn valueOf known (statement :: rest))
    (includes : known ⊆ keys)
    (members : ∀ key, key ∈ more ↔ key ∈ keys ∨ key ∈ putKeys [statement])
    {session : Session E} (holds : Holds V path (binding valueOf keys) session)
    : PassesWith (Holds V path (binding valueOf more))
        (statement.perform (Session.step .tests) path poolSize session) := by
  cases statement with
  | put key value =>
      obtain ⟨rfl, short, -⟩ := reads
      have after : Function.update (binding valueOf keys) key (some (valueOf key))
          = binding valueOf more :=
        binding_put (by simpa [putKeys] using members)
      rw [← after]
      exact holds.put laws room key short
  | get key value =>
      obtain ⟨rfl, member, -⟩ := reads
      have same : binding valueOf more = binding valueOf keys := by
        funext other
        simp [binding, members, putKeys]
      rw [same]
      exact holds.get laws room (if_pos (includes member))
  | countAll | restart => exact reads.elim

include laws room in
/-- Such a program passes, by induction on its statements. -/
theorem ReadsOwn.run {known : List Bytes} {program : List Statement}
    (reads : ReadsOwn valueOf known program) {session : Session E}
    (holds : Holds V path (binding valueOf known) session)
    : PassesWith (Holds V path (binding valueOf (known ++ putKeys program)))
        (runStatements (Statement.perform (Session.step .tests) path poolSize) program
          session) := by
  induction program generalizing known session with
  | nil =>
      rw [putKeys, List.append_nil]
      exact ⟨rfl, holds⟩
  | cons statement rest ih =>
      have split : ReadsOwn valueOf known ([statement] ++ rest) := reads
      have next := (readsOwn_append.mp split).2
      have first : PassesWith (Holds V path (binding valueOf (known ++ putKeys [statement])))
          (statement.perform (Session.step .tests) path poolSize session) :=
        reads.perform laws room poolSize (List.Subset.refl known) (fun _ => List.mem_append) holds
      refine first.cons (fun session holds => ?_)
      have all : known ++ putKeys (statement :: rest)
          = known ++ putKeys [statement] ++ putKeys rest := by
        rw [List.append_assoc, ← putKeys_append]
        rfl
      rw [all]
      exact ih next holds

end ReadsOwn

-----------------------------------------------------------------------------------------
-- Keys and values
-----------------------------------------------------------------------------------------

/-- Put every key and get it at once. -/
def writeAndRead (valueOf : Bytes → Bytes) (keys : List Bytes) : List Statement :=
  keys.flatMap (fun key => [.put key (valueOf key), .get key (valueOf key)])

/-- Get every key. -/
def readBack (valueOf : Bytes → Bytes) (keys : List Bytes) : List Statement :=
  keys.map (fun key => .get key (valueOf key))

section Programs

variable {valueOf : Bytes → Bytes}

theorem putKeys_writeAndRead (keys : List Bytes)
    : putKeys (writeAndRead valueOf keys) = keys := by
  induction keys with
  | nil => rfl
  | cons key keys ih =>
      rw [writeAndRead, List.flatMap_cons, putKeys_append]
      exact congrArg (key :: ·) ih

theorem putKeys_readBack (keys : List Bytes) : putKeys (readBack valueOf keys) = [] := by
  induction keys with
  | nil => rfl
  | cons key keys ih => exact ih

theorem readsOwn_writeAndRead {known keys : List Bytes}
    (short : ∀ key ∈ keys, (valueOf key).length < maxValLen)
    : ReadsOwn valueOf known (writeAndRead valueOf keys) := by
  induction keys generalizing known with
  | nil => exact trivial
  | cons key keys ih =>
      have rest : ReadsOwn valueOf (known ++ [key]) (writeAndRead valueOf keys) :=
        ih (fun other member => short other (List.mem_cons_of_mem _ member))
      exact ⟨rfl, short key List.mem_cons_self, rfl, by simp, rest⟩

theorem readsOwn_readBack {known keys : List Bytes} (includes : keys ⊆ known)
    : ReadsOwn valueOf known (readBack valueOf keys) := by
  induction keys with
  | nil => exact trivial
  | cons key keys ih =>
      obtain ⟨member, rest⟩ := List.cons_subset.mp includes
      exact ⟨rfl, member, ih rest⟩

end Programs

/-- No other number has the text of zero: a number with one digit is that digit. -/
theorem toDecimal_ne_zero {n : Nat} (positive : 0 < n) : toDecimal n ≠ toDecimal 0 := by
  intro zero
  simp only [toDecimal, Nat.ne_of_gt positive, if_false, if_true] at zero
  obtain ⟨digit, digits, ascii⟩ := List.map_eq_singleton_iff.mp zero
  rw [List.reverse_eq_iff, List.reverse_singleton] at digits
  have value := Nat.ofDigits_digits 10 n
  rw [digits, Nat.ofDigits_singleton] at value
  have small := Nat.digits_lt_base (by decide : 1 < 10) (digits ▸ List.mem_singleton_self digit)
  have bytes := congrArg UInt8.toNat ascii
  simp only [UInt8.toNat_ofNat', UInt8.reduceToNat] at bytes
  omega

/-- Decimal texts are distinct. -/
theorem toDecimal_inj {left right : Nat} (same : toDecimal left = toDecimal right)
    : left = right := by
  rcases Nat.eq_zero_or_pos left with rfl | leftPos
  · rcases Nat.eq_zero_or_pos right with rfl | rightPos
    · rfl
    · exact absurd same.symm (toDecimal_ne_zero rightPos)
  · rcases Nat.eq_zero_or_pos right with rfl | rightPos
    · exact absurd same (toDecimal_ne_zero leftPos)
    · exact toDecimal_injective leftPos rightPos same

theorem toDecimal_keys_nodup (begin count : Nat)
    : ((List.range' begin count).map toDecimal).Nodup :=
  List.Nodup.map_on (fun _ _ _ _ same => toDecimal_inj same) List.nodup_range'

-----------------------------------------------------------------------------------------
-- The fixture
-----------------------------------------------------------------------------------------

section Fixture

variable {E : Engine} {V : E.View}

/-- What `std::remove` of the pool's file does: the pool is gone, and nothing else changes. -/
structure RemovesPool (V : E.View) (path : String) (remove : E.State → E.State) : Prop where
  pools : ∀ state, V.pools (remove state) = Function.update (V.pools state) path none
  handle : ∀ state, V.handle (remove state) = V.handle state

/-- No pool is open, and all values are short enough to be read back. -/
structure Idle (V : E.View) (engine : E.State) : Prop where
  closed : V.Closed engine
  short : (MapState.closed (V.pools engine)).Short

/-- The constructor of the fixture, and the first assertion of every test. -/
def setUp (remove : E.State → E.State) (path : String) (poolSize : Nat) (engine : E.State)
    : Bool × Session E :=
  let (answer, session) :=
    Session.step .tests (.open path poolSize true) ⟨remove engine, none⟩
  (answer = .opened true, session)

/-- The destructor of the fixture. -/
def tearDown (session : Session E) : E.State :=
  (Session.step .tests .close session).2.engine

/-- A test from the constructor of its fixture to the destructor. The body comes after the
first assertion; in `Option` it has no result as long as a thread is not joined.
-/
def inFixture {M : Type → Type} [Monad M] (remove : E.State → E.State) (path : String)
    (poolSize : Nat) (body : Session E → M (Bool × Session E)) (engine : E.State)
    : M (Bool × E.State) := do
  let (valid, session) := setUp remove path poolSize engine
  let (passed, session) ← if valid then body session else pure (false, session)
  return (passed, tearDown session)

theorem isSome_binding {valueOf : Bytes → Bytes} {keys : List Bytes} {key : Bytes}
    : (binding valueOf keys key).isSome = true ↔ key ∈ keys := by
  simp [binding]

theorem binding_nil (valueOf : Bytes → Bytes) : binding valueOf [] = fun _ => none := by
  funext key
  simp [binding]

variable (laws : E.CmapLaws V) (room : V.AlwaysRoom) {path : String} {poolSize : Nat}
  {remove : E.State → E.State} (removes : RemovesPool V path remove)
  (creatable : V.creatable path poolSize = true) {engine : E.State} (idle : Idle V engine)

include laws room removes creatable idle in
/-- The fixture starts with an empty store, whatever was in the pool. -/
theorem setUp_holds
    : PassesWith (Holds V path (fun _ => none)) (setUp remove path poolSize engine) := by
  let state := MapState.closed (V.pools (remove engine))
  have gone : state.pools path = none := by
    simp [state, MapState.closed, removes.pools]
  have short : state.Short := by
    intro other contents key value pool
    have old : V.pools engine other = some contents := by
      by_cases same : other = path
      · subst same
        simp [gone] at pool
      · simpa [state, MapState.closed, removes.pools, same] using pool
    exact idle.short other contents key value old
  have related : Related V ⟨remove engine, none⟩ state := by
    refine .closed rfl rfl (fun db => ?_)
    rw [removes.handle]
    exact idle.closed db
  obtain ⟨answer, next⟩ :=
    Session.step_simulates laws room .tests (.open path poolSize true) short related
  obtain ⟨opened, holds⟩ := MapHolds.create rfl gone creatable
  refine ⟨?_, _, next, short.step V.creatable (by simp), holds⟩
  simp [setUp, answer.trans opened]

include laws room in
/-- The destructor leaves the engine idle. -/
theorem Holds.tearDown {bound : Bytes → Option Bytes} {session : Session E}
    (holds : Holds V path bound session)
    : Idle V (tearDown session) := by
  obtain ⟨state, related, short, mapHolds⟩ := holds
  obtain ⟨contents, -, opened, -⟩ := mapHolds.contents?
  obtain ⟨-, next⟩ := Session.step_simulates laws room .tests .close short related
  have shortNext : (state.step V.creatable .close).2.Short :=
    short.step V.creatable (by simp)
  have shut : (state.step V.creatable .close).2 = .closed state.pools := by
    simp only [MapState.step, opened]
  rw [shut] at next shortNext
  have pools := next.samePools
  refine ⟨?_, ?_⟩
  · cases result : (Session.step .tests .close session).2 with
    | mk engine wrapper =>
        rw [result] at next
        simp only [Tests.tearDown, result]
        cases next with
        | closed _ _ closed => exact closed
        | live _ current _ _ => cases current
  · rw [Tests.tearDown, pools]
    exact shortNext

include laws room removes creatable idle in
/-- A test has the verdict that its body has from an empty store, and leaves the engine
idle.
-/
theorem inFixture_ends {body : Session E → Option (Bool × Session E)} {verdict : Bool}
    (ends : ∀ session, Holds V path (fun _ => none) session
      → ∃ bound final, body session = some (verdict, final) ∧ Holds V path bound final)
    : ∃ final, inFixture remove path poolSize body engine = some (verdict, final)
      ∧ Idle V final := by
  obtain ⟨valid, empty⟩ := setUp_holds laws room removes creatable idle
  obtain ⟨bound, final, ran, holds⟩ := ends _ empty
  refine ⟨tearDown final, ?_, holds.tearDown laws room⟩
  simp [inFixture, valid, ran]

end Fixture

-----------------------------------------------------------------------------------------
-- The large tests
-----------------------------------------------------------------------------------------

/-- The four large tests, with `LARGE_LIMIT` as a parameter. -/
structure LargeTest where
  descending : Bool
  recovery : Bool
  limit : Nat
deriving DecidableEq, Repr

namespace LargeTest

/-- The keys in the order of the loops. -/
def keys (test : LargeTest) : List Bytes :=
  let order := List.range' 1 test.limit
  (if test.descending then order.reverse else order).map toDecimal

/-- `"ABC" + istr` or `istr + "!"`. -/
def valueOf (test : LargeTest) (key : Bytes) : Bytes :=
  if test.descending then [65, 66, 67] ++ key else key ++ [33]

def program (test : LargeTest) : List Statement :=
  writeAndRead test.valueOf test.keys ++
    ((if test.recovery then [.restart] else []) ++
      (readBack test.valueOf test.keys ++ [.countAll test.limit]))

/-- A test from the constructor of its fixture to the destructor. -/
def runTest {E : Engine} (remove : E.State → E.State) (path : String) (poolSize : Nat)
    (test : LargeTest) (engine : E.State)
    : Bool × E.State :=
  Id.run (inFixture remove path poolSize
    (fun session => pure
      (runStatements (Statement.perform (Session.step .tests) path poolSize) test.program session))
    engine)

theorem keys_nodup (test : LargeTest) : test.keys.Nodup := by
  have distinct := toDecimal_keys_nodup 1 test.limit
  unfold keys
  split
  · rw [List.map_reverse]
    exact List.nodup_reverse.mpr distinct
  · exact distinct

theorem keys_length (test : LargeTest) : test.keys.length = test.limit := by
  unfold keys
  split <;> simp

/-- The loops count with an `int`, so that all values are short. -/
theorem valueOf_short {test : LargeTest} (bounded : test.limit < 2 ^ 31 - 1) {key : Bytes}
    (member : key ∈ test.keys)
    : (test.valueOf key).length < maxValLen := by
  have index : ∃ i, i < 2 ^ 64 ∧ toDecimal i = key := by
    have listed : key ∈ (List.range' 1 test.limit).map toDecimal := by
      unfold keys at member
      split at member
      · rwa [List.map_reverse, List.mem_reverse] at member
      · exact member
    obtain ⟨i, inside, same⟩ := List.mem_map.mp listed
    rw [List.mem_range'_1] at inside
    exact ⟨i, by omega, same⟩
  obtain ⟨i, small, rfl⟩ := index
  have digits := toDecimal_length_le small
  unfold valueOf maxValLen
  split <;> simp only [List.length_append, List.length_cons, List.length_nil] <;> omega

variable {E : Engine} {V : E.View} (laws : E.CmapLaws V) (room : V.AlwaysRoom) {path : String}
  {poolSize : Nat}

include laws room in
/-- From an empty store the program passes: it writes, restarts if it does, reads back and
counts.
-/
theorem program_passes {test : LargeTest} (bounded : test.limit < 2 ^ 31 - 1)
    {session : Session E} (holds : Holds V path (fun _ => none) session)
    : PassesWith (Holds V path (binding test.valueOf test.keys))
        (runStatements (Statement.perform (Session.step .tests) path poolSize) test.program
          session) := by
  have written : ReadsOwn test.valueOf [] (writeAndRead test.valueOf test.keys) :=
    readsOwn_writeAndRead (fun _ member => valueOf_short bounded member)
  have filled : PassesWith (Holds V path (binding test.valueOf test.keys))
      (runStatements (Statement.perform (Session.step .tests) path poolSize)
        (writeAndRead test.valueOf test.keys) session) := by
    have ran := written.run laws room poolSize (binding_nil test.valueOf ▸ holds)
    rwa [putKeys_writeAndRead, List.nil_append] at ran
  refine filled.append (fun session holds => ?_)
  have again : PassesWith (Holds V path (binding test.valueOf test.keys))
      (runStatements (Statement.perform (Session.step .tests) path poolSize)
        (if test.recovery then [.restart] else []) session) := by
    cases test.recovery with
    | false => exact ⟨rfl, holds⟩
    | true => exact (holds.restart laws room).cons (fun _ holds => ⟨rfl, holds⟩)
  refine again.append (fun session holds => ?_)
  have readable : ReadsOwn test.valueOf test.keys (readBack test.valueOf test.keys) :=
    readsOwn_readBack (List.Subset.refl _)
  have read : PassesWith (Holds V path (binding test.valueOf test.keys))
      (runStatements (Statement.perform (Session.step .tests) path poolSize)
        (readBack test.valueOf test.keys) session) := by
    have ran := readable.run laws room poolSize holds
    rwa [putKeys_readBack, List.append_nil] at ran
  refine read.append (fun session holds => ?_)
  have counted : PassesWith (Holds V path (binding test.valueOf test.keys))
      ((Statement.countAll test.limit).perform (Session.step .tests) path poolSize session) :=
    holds.countAll laws room test.keys_nodup (fun _ => isSome_binding) test.keys_length
  exact counted.cons (fun _ holds => ⟨rfl, holds⟩)

variable {remove : E.State → E.State} (removes : RemovesPool V path remove)
  (creatable : V.creatable path poolSize = true)

include laws room removes creatable in
/-- One test passes and leaves the engine idle. -/
theorem runTest_passes {test : LargeTest} (bounded : test.limit < 2 ^ 31 - 1)
    {engine : E.State} (idle : Idle V engine)
    : PassesWith (Idle V) (test.runTest remove path poolSize engine) := by
  obtain ⟨valid, empty⟩ := setUp_holds laws room removes creatable idle
  obtain ⟨passed, holds⟩ := program_passes laws room bounded empty
  simp only [PassesWith, runTest, inFixture, valid, if_true]
  exact ⟨passed, holds.tearDown laws room⟩

end LargeTest

/-- Any sequence of large tests passes on the reference implementation, whatever the pools
hold before it. Every test starts from an empty store and leaves no open handle behind, so
that none depends on the tests before it.
-/
theorem largeTests_pass {E : Engine} {V : E.View} (laws : E.CmapLaws V) (room : V.AlwaysRoom)
    {path : String} {poolSize : Nat} {remove : E.State → E.State}
    (removes : RemovesPool V path remove) (creatable : V.creatable path poolSize = true)
    {tests : List LargeTest} (bounded : ∀ test ∈ tests, test.limit < 2 ^ 31 - 1)
    {engine : E.State} (idle : Idle V engine)
    : (run (LargeTest.runTest remove path poolSize) tests engine).1
        = tests.map (fun _ => true)
      ∧ Idle V (run (LargeTest.runTest remove path poolSize) tests engine).2 := by
  induction tests generalizing engine with
  | nil => exact ⟨rfl, idle⟩
  | cons test tests ih =>
      obtain ⟨passed, next⟩ := LargeTest.runTest_passes laws room removes creatable
        (bounded test List.mem_cons_self) idle
      obtain ⟨others, final⟩ :=
        ih (fun other member => bounded other (List.mem_cons_of_mem _ member)) next
      rw [run_cons, List.map_cons, passed, others]
      exact ⟨rfl, final⟩

/-- `std::remove` of a table's pool. -/
def removeTable (path : String) (state : TableState) : TableState :=
  { state with pools := Function.update state.pools path none }

theorem removeTable_removes (path : String) : RemovesPool tableView path (removeTable path) :=
  ⟨fun _ => rfl, fun _ => rfl⟩

theorem emptyTable_idle : Idle tableView TableState.empty :=
  ⟨fun _ => rfl, by intro path contents key value pool; cases pool⟩

/-- Witness: two of the tests in sequence, one of them with a restart. -/
theorem largeTests_pass_two
    : (run (@LargeTest.runTest tableEngine (removeTable "/mnt/ramdisk/test")
          "/mnt/ramdisk/test" 2147483648)
        [⟨false, true, 500000⟩, ⟨true, false, 500000⟩] TableState.empty).1
      = [true, true] :=
  (largeTests_pass tableEngine_cmapLaws tableView_alwaysRoom (removeTable_removes _)
    (by decide) (by simp) emptyTable_idle).1

-----------------------------------------------------------------------------------------
-- The test with threads
-----------------------------------------------------------------------------------------

/-- The value under a key, `istr + "!"`. -/
def markedValue (key : Bytes) : Bytes := key ++ [33]

/-- The keys of one thread. -/
def threadKeys (items threadId : Nat) : List Bytes :=
  (List.range' (threadId * items) items).map toDecimal

/-- The body of one thread. -/
def threadProgram (items threadId : Nat) : List Statement :=
  writeAndRead markedValue (threadKeys items threadId)
    ++ readBack markedValue (threadKeys items threadId)

/-- The body of `SimpleMultithreadedTest` under one schedule of the threads' calls. It counts
when all threads have been joined, also if one of them has failed.
-/
def threadsBody {E : Engine} (path : String) (poolSize threadsNumber threadItems : Nat)
    (schedule : List (Fin threadsNumber)) (session : Session E)
    : Option (Bool × Session E) :=
  let perform : Statement → Session E → Bool × Session E :=
    Statement.perform (Session.step .tests) path poolSize
  (execute (Threads.step perform) schedule
      (Threads.start (fun i => threadProgram threadItems i) session)).bind (fun joined =>
    if ∀ i, joined.todo i = [] then
      let (counted, final) := perform (.countAll (threadsNumber * threadItems)) joined.state
      some (!joined.failed && counted, final)
    else none)

def simpleMultithreadedTest {E : Engine} (remove : E.State → E.State) (path : String)
    (poolSize threadsNumber threadItems : Nat) (schedule : List (Fin threadsNumber))
    : E.State → Option (Bool × E.State) :=
  inFixture remove path poolSize (threadsBody path poolSize threadsNumber threadItems schedule)

/-- The keys of all threads are the decimal texts below the product. -/
theorem mem_threadKeys {threadsNumber threadItems : Nat} {key : Bytes}
    : key ∈ together (fun i : Fin threadsNumber => threadKeys threadItems i)
      ↔ key ∈ (List.range' 0 (threadsNumber * threadItems)).map toDecimal := by
  simp only [mem_together, threadKeys, List.mem_map, List.mem_range'_1]
  constructor
  · rintro ⟨i, k, inside, rfl⟩
    refine ⟨k, ⟨Nat.zero_le _, ?_⟩, rfl⟩
    have last : (i + 1) * threadItems ≤ threadsNumber * threadItems :=
      Nat.mul_le_mul_right _ i.isLt
    rw [Nat.add_mul] at last
    omega
  · rintro ⟨k, ⟨-, inside⟩, rfl⟩
    have items : 0 < threadItems := by
      rcases Nat.eq_zero_or_pos threadItems with zero | positive
      · simp [zero] at inside
      · exact positive
    have thread : k / threadItems < threadsNumber :=
      (Nat.div_lt_iff_lt_mul items).mpr (by omega)
    refine ⟨⟨k / threadItems, thread⟩, k, ⟨?_, ?_⟩, rfl⟩
    · exact Nat.div_mul_le_self k threadItems
    · have split := Nat.div_add_mod' k threadItems
      have remainder := Nat.mod_lt k items
      simp only
      omega

theorem readsOwn_threadProgram {threadItems threadId : Nat}
    (bounded : (threadId + 1) * threadItems ≤ 2 ^ 64)
    : ReadsOwn markedValue [] (threadProgram threadItems threadId) := by
  refine readsOwn_append.mpr ⟨readsOwn_writeAndRead ?_, ?_⟩
  · intro key member
    obtain ⟨k, inside, rfl⟩ := List.mem_map.mp member
    rw [List.mem_range'_1] at inside
    rw [Nat.add_mul] at bounded
    have digits := toDecimal_length_le (show k < 2 ^ 64 by omega)
    simp only [markedValue, maxValLen, List.length_append, List.length_cons, List.length_nil]
    omega
  · rw [putKeys_writeAndRead, List.nil_append]
    exact readsOwn_readBack (List.Subset.refl _)

theorem length_threadProgram (threadItems threadId : Nat)
    : (threadProgram threadItems threadId).length = 3 * threadItems := by
  have pairs (keys : List Bytes) : (writeAndRead markedValue keys).length = 2 * keys.length := by
    simp [writeAndRead, List.length_flatMap]
    omega
  simp only [threadProgram, List.length_append, pairs, readBack, List.length_map, threadKeys,
    List.length_range']
  omega

/-- One more statement of one thread puts its key, if it is a put. -/
theorem mem_putKeys_update {n : Nat} (done : Fin n → List Statement) (i : Fin n)
    (statement : Statement) (key : Bytes)
    : key ∈ together (fun j => putKeys (Function.update done i (done i ++ [statement]) j))
      ↔ key ∈ together (fun j => putKeys (done j)) ∨ key ∈ putKeys [statement] := by
  simp only [mem_together]
  constructor
  · rintro ⟨j, member⟩
    by_cases same : j = i
    · subst same
      rw [Function.update_self, putKeys_append, List.mem_append] at member
      exact member.imp_left (fun earlier => ⟨j, earlier⟩)
    · rw [Function.update_of_ne same] at member
      exact .inl ⟨j, member⟩
  · rintro (⟨j, member⟩ | member)
    · refine ⟨j, ?_⟩
      by_cases same : j = i
      · subst same
        rw [Function.update_self, putKeys_append]
        exact List.mem_append_left _ member
      · rwa [Function.update_of_ne same]
    · refine ⟨i, ?_⟩
      rw [Function.update_self, putKeys_append]
      exact List.mem_append_right _ member

/-- Threads that read only what they have put themselves pass in every interleaving: the
store binds exactly the keys that some thread has put, all of them to their own values.
-/
theorem threads_verified {E : Engine} {V : E.View} (laws : E.CmapLaws V)
    (room : V.AlwaysRoom) {path : String} (poolSize : Nat) {valueOf : Bytes → Bytes} {n : Nat}
    {program : Fin n → List Statement} (reads : ∀ i, ReadsOwn valueOf [] (program i))
    : Threads.Verified (Statement.perform (Session.step .tests) path poolSize) program
        (fun done (session : Session E) =>
          Holds V path (binding valueOf (together fun i => putKeys (done i))) session) := by
  intro done session i statement left whole holds
  have own := reads i
  rw [whole] at own
  have next := (readsOwn_append.mp own).2
  rw [List.nil_append] at next
  refine next.perform laws room poolSize ?_ (mem_putKeys_update done i statement) holds
  intro key member
  exact mem_together.mpr ⟨i, member⟩

/-- From an empty store the body passes under every complete schedule: all threads end
without a failure, and the store then binds the keys of all of them.
-/
theorem threadsBody_passes {E : Engine} {V : E.View} (laws : E.CmapLaws V)
    (room : V.AlwaysRoom) {path : String} {poolSize threadsNumber threadItems : Nat}
    (bounded : threadsNumber * threadItems < 2 ^ 64) {schedule : List (Fin threadsNumber)}
    (complete : ∀ i, schedule.count i = 3 * threadItems) (session : Session E)
    (empty : Holds V path (fun _ => none) session)
    : ∃ bound final,
      threadsBody path poolSize threadsNumber threadItems schedule session = some (true, final)
      ∧ Holds V path bound final := by
  have reads (i : Fin threadsNumber)
      : ReadsOwn markedValue [] (threadProgram threadItems i) := by
    have below : (i + 1) * threadItems ≤ threadsNumber * threadItems :=
      Nat.mul_le_mul_right _ i.isLt
    exact readsOwn_threadProgram (by omega)
  have initial : Holds V path (binding markedValue
      (together fun _ : Fin threadsNumber => putKeys [])) session := by
    have none : (together fun _ : Fin threadsNumber => putKeys []) = [] := by
      simp [together, putKeys]
    rw [none, binding_nil]
    exact empty
  obtain ⟨joined, executed, passed, finished, holds⟩ :=
    Threads.execute_verified (threads_verified laws room poolSize reads) initial
      (fun i => (complete i).trans (length_threadProgram threadItems i).symm)
  have keys (i : Fin threadsNumber)
      : putKeys (threadProgram threadItems i) = threadKeys threadItems i := by
    rw [threadProgram, putKeys_append, putKeys_writeAndRead, putKeys_readBack,
      List.append_nil]
  have listed (key : Bytes)
      : (binding markedValue
          (together fun i : Fin threadsNumber => putKeys (threadProgram threadItems i))
          key).isSome = true
        ↔ key ∈ (List.range' 0 (threadsNumber * threadItems)).map toDecimal := by
    simp only [isSome_binding, keys]
    exact mem_threadKeys
  have counts : PassesWith (Holds V path _)
      ((Statement.countAll (threadsNumber * threadItems)).perform (Session.step .tests) path
        poolSize joined.state) :=
    holds.countAll laws room (toDecimal_keys_nodup 0 _) listed (by simp)
  refine ⟨_, _, ?_, counts.2⟩
  simp only [threadsBody, executed, Option.bind_some, if_pos finished, passed, counts.1]
  rfl

/-- `SimpleMultithreadedTest` passes under every interleaving of its threads' calls, for any
number of threads and of items, and leaves the engine idle.
-/
theorem simpleMultithreadedTest_passes {E : Engine} {V : E.View} (laws : E.CmapLaws V)
    (room : V.AlwaysRoom) {path : String} {poolSize : Nat} {remove : E.State → E.State}
    (removes : RemovesPool V path remove) (creatable : V.creatable path poolSize = true)
    {engine : E.State} (idle : Idle V engine) {threadsNumber threadItems : Nat}
    (bounded : threadsNumber * threadItems < 2 ^ 64) {schedule : List (Fin threadsNumber)}
    (complete : ∀ i, schedule.count i = 3 * threadItems)
    : ∃ final,
      simpleMultithreadedTest remove path poolSize threadsNumber threadItems schedule engine
        = some (true, final)
      ∧ Idle V final :=
  inFixture_ends laws room removes creatable idle
    (threadsBody_passes laws room bounded complete)

/-- Witness: two threads with one item each, whose calls alternate. -/
theorem simpleMultithreadedTest_passes_two
    : ∃ final, @simpleMultithreadedTest tableEngine (removeTable "/mnt/ramdisk/test")
        "/mnt/ramdisk/test" 536870912 2 1 [0, 1, 1, 0, 0, 1] TableState.empty
        = some (true, final)
      ∧ Idle tableView final :=
  simpleMultithreadedTest_passes tableEngine_cmapLaws tableView_alwaysRoom
    (removeTable_removes _) (by decide) emptyTable_idle (by decide) (by decide)

end PMKVLab.Tests
