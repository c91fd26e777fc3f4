import PMKVLab.Recovery.Workloads
import PMKVLab.Tests.ManyKeys

/-! The three tests of `recovery_test.cc` as they run: every iteration starts from a fresh
pool, forks a child that works on it until it is killed, reopens the pool and checks it. A
failed assertion is recorded and leaves only the function it stands in; one that fails in
the child is lost with the child.
-/

namespace PMKVLab.Recovery

open PMKVLab.Library PMKVLab.Store
open PMKVLab.Tests (RemovesPool removeTable removeTable_removes)

-----------------------------------------------------------------------------------------
-- The fixture
-----------------------------------------------------------------------------------------

/-- The fixture of the tests, with the failures that the parent has recorded and the counts
`cnt_all` and `cnt` that it has printed.
-/
structure Fixture (E : Engine) where
  engine : E.State
  kv : PMKVWrapper E
  failed : Bool
  printed : List (Nat × Nat)

namespace Fixture

variable {E : Engine}

/-- `Start`. The wrapper's constructor never throws in the tests. -/
def start (path : String) (poolSize : Nat) (create : Bool) (fixture : Fixture E)
    : Fixture E :=
  match Harness.tests.construct E path poolSize create fixture.engine with
  | (.ok kv, next) =>
      { fixture with engine := next, kv := kv, failed := fixture.failed || !kv.isDbValid }
  | (.error _, next) => { fixture with engine := next, failed := true }

/-- The constructor of `PMKVBaseTest`. -/
def construct (remove : E.State → E.State) (path : String) (poolSize : Nat)
    (engine : E.State)
    : Fixture E :=
  start path poolSize true ⟨remove engine, ⟨none⟩, false, []⟩

def restart (path : String) (poolSize : Nat) (fixture : Fixture E) : Fixture E :=
  start path poolSize false { fixture with engine := fixture.kv.destroy fixture.engine }

def cleanup (remove : E.State → E.State) (path : String) (poolSize : Nat)
    (fixture : Fixture E)
    : Fixture E :=
  start path poolSize true
    { fixture with engine := remove (fixture.kv.destroy fixture.engine) }

/-- `FillSeq` in the parent. It has no result when its counter overflows. -/
def fillSeq (numOp : Nat) (fixture : Fixture E) : Option (Fixture E) :=
  match loopAfter numOp (fillCall fixture.kv) (numOp + 1) fixture.engine with
  | .finished engine => some { fixture with engine := engine }
  | .asserted engine => some { fixture with engine := engine, failed := true }
  | .running _ _ => none
  | .overflowed => none

/-- `SanityCheck`, with the line that it prints. -/
def sanityCheck (numOp : Nat) (fixture : Fixture E) : Option (Fixture E) :=
  match Harness.tests.countAll fixture.kv (sizeMod - 1) fixture.engine with
  | (.ok .ok, cntAll) =>
      (sanityLoop numOp fixture.kv fixture.engine (numOp + 1) 1 0).map (fun cnt =>
        { fixture with
          failed := fixture.failed || cntAll != cnt
          printed := fixture.printed ++ [(cntAll, cnt)] })
  | _ => some { fixture with failed := true }

end Fixture

-----------------------------------------------------------------------------------------
-- The child and the tests
-----------------------------------------------------------------------------------------

/-- When the signal reaches the child: after how many operations, and whether the operation
in flight is applied.
-/
structure Kill where
  completed : Nat
  applied : Bool
deriving DecidableEq, Repr

/-- The operations of a workload that have taken effect by then. -/
def Kill.effective (numOp : Nat) (kill : Kill) : Nat :=
  min numOp (kill.completed + if kill.applied then 1 else 0)

/-- What the child leaves: it is killed inside the workload, or raises the signal itself
once the workload has returned.
-/
def childLeaves {State : Type} (numOp : Nat) (call : Nat → State → Except String Status × State)
    (kill : Kill) (state : State)
    : Option State :=
  match loopAfter numOp call kill.completed state with
  | .running i current =>
      some (if kill.applied ∧ i ≤ numOp then (call i current).2 else current)
  | .finished final => some final
  | .asserted final => some final
  | .overflowed => none

inductive RecoveryTest
  | fillSeq
  | overwriteSeq
  | deleteSeq
deriving DecidableEq, Repr

structure Report where
  passed : Bool
  printed : List (Nat × Nat)
deriving DecidableEq, Repr

namespace RecoveryTest

variable {E : Engine}

/-- Whether the parent fills the store before it forks. -/
def fills : RecoveryTest → Bool
  | fillSeq => false
  | overwriteSeq => true
  | deleteSeq => true

/-- The body of the child's workload. -/
def call : RecoveryTest → PMKVWrapper E → Nat → E.State → Except String Status × E.State
  | fillSeq => fillCall
  | overwriteSeq => fillCall
  | deleteSeq => deleteCall

/-- What the parent does with a fresh pool before it forks. -/
def prepare (test : RecoveryTest) (numOp : Nat) (fixture : Fixture E) : Option (Fixture E) :=
  if test.fills then fixture.fillSeq numOp else some fixture

/-- One iteration of a test. -/
def iteration (test : RecoveryTest) (remove : E.State → E.State) (path : String)
    (poolSize numOp : Nat) (fixture : Fixture E) (kill : Kill)
    : Option (Fixture E) := do
  let forked ← test.prepare numOp (fixture.cleanup remove path poolSize)
  let left ← childLeaves numOp (test.call forked.kv) kill forked.engine
  let reopened := { forked with engine := E.crash left : Fixture E }.restart path poolSize
  reopened.sanityCheck numOp

/-- A test from the constructor of its fixture to the destructor, with one entry of `kills`
for each iteration.
-/
def runTest (test : RecoveryTest) (remove : E.State → E.State) (path : String)
    (poolSize numOp : Nat) (kills : List Kill) (engine : E.State)
    : Option (Report × E.State) := do
  let final ← kills.foldlM (test.iteration remove path poolSize numOp)
    (Fixture.construct remove path poolSize engine)
  some (⟨!final.failed, final.printed⟩, final.kv.destroy final.engine)

/-- `RUN_ALL_TESTS`. -/
def runAll (remove : E.State → E.State) (path : String) (poolSize numOp : Nat)
    : List (RecoveryTest × List Kill) → E.State → Option (List Report × E.State)
  | [], engine => some ([], engine)
  | (test, kills) :: rest, engine => do
      let (report, next) ← test.runTest remove path poolSize numOp kills engine
      let (reports, final) ← runAll remove path poolSize numOp rest next
      some (report :: reports, final)

/-- After `n` effective operations of the child, the numbers above the first and up to the
second have a binding.
-/
def window (numOp : Nat) : RecoveryTest → Nat → Nat × Nat
  | fillSeq, n => (0, n)
  | overwriteSeq, _ => (0, numOp)
  | deleteSeq, n => (n, numOp)

/-- The number of bindings that a test finds after a kill. -/
def recovered (numOp : Nat) (test : RecoveryTest) (kill : Kill) : Nat :=
  (test.window numOp (kill.effective numOp)).2 - (test.window numOp (kill.effective numOp)).1

end RecoveryTest

-----------------------------------------------------------------------------------------
-- Workloads that are killed
-----------------------------------------------------------------------------------------

section Loops

variable {State : Type} {numOp : Nat} {call : Nat → State → Except String Status × State}
  {invariant other : Nat → State → Prop} {start : State}

/-- Invariants that agree up to the last operation are interchangeable. -/
theorem LoopInvariant.congr (rule : LoopInvariant numOp call invariant start)
    (same : ∀ n ≤ numOp, ∀ state, invariant n state ↔ other n state)
    : LoopInvariant numOp call other start where
  initial := (same 0 (Nat.zero_le _) start).mp rule.initial
  preserved n state more held := by
    obtain ⟨ok, next⟩ := rule.preserved n state more ((same n (by omega) state).mpr held)
    exact ⟨ok, (same (n + 1) more _).mp next⟩

/-- The loop ends after its last operation, and stays there. -/
theorem LoopInvariant.finishes (rule : LoopInvariant numOp call invariant start)
    (bounded : numOp < intMax) {n : Nat} (past : numOp < n)
    : ∃ final, loopAfter numOp call n start = .finished final ∧ invariant numOp final := by
  induction n, past using Nat.le_induction with
  | base =>
      obtain ⟨state, runs⟩ := rule.reaches (Nat.le_refl numOp) bounded
      refine ⟨state, ?_, (rule.holds runs).2.2⟩
      rw [loopAfter, Function.iterate_succ_apply', ← loopAfter, runs, loopStep,
        if_neg (by omega)]
  | succ n _ ih =>
      obtain ⟨final, done, held⟩ := ih
      refine ⟨final, ?_, held⟩
      rw [loopAfter, Function.iterate_succ_apply', ← loopAfter, done]
      rfl

/-- A killed child leaves a state that satisfies the invariant for its effective operations.
-/
theorem LoopInvariant.childLeaves (rule : LoopInvariant numOp call invariant start)
    (bounded : numOp < intMax) (kill : Kill)
    : ∃ left, childLeaves numOp call kill start = some left
      ∧ invariant (kill.effective numOp) left := by
  rcases Nat.lt_or_ge numOp kill.completed with past | inside
  · obtain ⟨final, done, held⟩ := rule.finishes bounded past
    have all : kill.effective numOp = numOp := Nat.min_eq_left (by omega)
    rw [all]
    exact ⟨final, by simp only [Recovery.childLeaves, done], held⟩
  · obtain ⟨state, runs⟩ := rule.reaches inside (by omega)
    obtain ⟨-, -, held⟩ := rule.holds runs
    by_cases inFlight : kill.applied ∧ kill.completed + 1 ≤ numOp
    · have one : kill.effective numOp = kill.completed + 1 := by
        rw [Kill.effective, if_pos inFlight.1]
        exact Nat.min_eq_right inFlight.2
      obtain ⟨-, next⟩ := rule.preserved kill.completed state inFlight.2 held
      rw [one]
      exact ⟨_, by simp only [Recovery.childLeaves, runs, if_pos inFlight], next⟩
    · have none : kill.effective numOp = kill.completed := by
        rw [Kill.effective]
        split
        · next applied =>
            have last : ¬ kill.completed + 1 ≤ numOp := fun more => inFlight ⟨applied, more⟩
            rw [Nat.min_eq_left (by omega)]
            omega
        · exact Nat.min_eq_right inside
      rw [none]
      exact ⟨_, by simp only [Recovery.childLeaves, runs, if_neg inFlight], held⟩

end Loops

-----------------------------------------------------------------------------------------
-- One iteration
-----------------------------------------------------------------------------------------

/-- The numbers of a window among those of the check. -/
theorem countP_window (low high numOp : Nat)
    : (List.range' 1 numOp).countP (fun i => low < i ∧ i ≤ high) = min high numOp - low := by
  induction numOp with
  | zero => simp
  | succ n ih =>
      rw [List.range'_concat, List.countP_append, ih, List.countP_singleton]
      split
      · next inside =>
          simp only [decide_eq_true_eq] at inside
          omega
      · next outside =>
          simp only [decide_eq_true_eq] at outside
          omega

/-- The check finds as many expected bindings as there are selected numbers. -/
theorem ExactlyExpected.agreements {selected : Nat → Prop} [DecidablePred selected]
    {contents : Contents} (exact : ExactlyExpected selected contents)
    (positive : ∀ i, selected i → 0 < i) (numOp : Nat)
    : agreements contents (List.range' 1 numOp) toDecimal expectedValue
      = (List.range' 1 numOp).countP (fun i => selected i) := by
  refine List.countP_congr (fun i member => ?_)
  rw [List.mem_range'_1] at member
  rw [decide_eq_true_eq, decide_eq_true_eq, exact]
  constructor
  · rintro ⟨j, chosen, key, -⟩
    rwa [toDecimal_injective (by omega) (positive j chosen) key]
  · intro chosen
    exact ⟨i, chosen, rfl, rfl⟩

section Iterations

variable {E : Engine} {V : E.View} {path : String} {poolSize numOp : Nat}
  {remove : E.State → E.State}

/-- The fixture has the only live handle, and its store binds exactly the numbers of the
window.
-/
def Fixture.Binds (V : E.View) (path : String) (window : Nat × Nat) (fixture : Fixture E)
    : Prop :=
  ∃ db, fixture.kv = ⟨some db⟩
    ∧ Holds V db path (fun i => window.1 < i ∧ i ≤ window.2) fixture.engine

/-- Nothing has failed yet, and these counts have been printed. -/
structure Fixture.Passing (printed : List (Nat × Nat)) (fixture : Fixture E) : Prop where
  noFailure : fixture.failed = false
  lines : fixture.printed = printed

/-- The destructor closes the only handle. -/
theorem Fixture.Binds.destroy (laws : E.CmapLaws V) {window : Nat × Nat} {fixture : Fixture E}
    (binds : fixture.Binds V path window)
    : V.Closed (fixture.kv.destroy fixture.engine)
      ∧ V.pools (fixture.kv.destroy fixture.engine) = V.pools fixture.engine := by
  obtain ⟨db, kv, only, contents, live, -⟩ := binds
  obtain ⟨dead, others, pools⟩ := laws.close live.1
  rw [kv]
  refine ⟨fun other => ?_, pools⟩
  by_cases mine : other = db
  · exact mine ▸ dead
  · exact (others other mine).trans (only other mine)

section Create

variable (laws : E.CmapLaws V) (removes : RemovesPool V path remove)
  (creatable : V.creatable path poolSize = true)

include laws removes creatable in
/-- A removed pool is created anew, and empty. -/
theorem Fixture.start_create {printed : List (Nat × Nat)} {fixture : Fixture E}
    (passing : fixture.Passing printed) {engine : E.State} (closed : V.Closed engine)
    : (start path poolSize true { fixture with engine := remove engine }).Passing printed
      ∧ (start path poolSize true { fixture with engine := remove engine }).Binds V path
          (0, 0) := by
  have shut : V.Closed (remove engine) := by
    intro db
    rw [removes.handle]
    exact closed db
  have gone : V.pools (remove engine) path = none := by
    rw [removes.pools, Function.update_self]
  obtain ⟨db, next, opened, handle, only, pools⟩ := laws.createNew shut gone creatable
  have started : start path poolSize true { fixture with engine := remove engine }
      = { fixture with engine := next, kv := ⟨some db⟩ } := by
    simp [start, Harness.construct, pmkvOpen, opened, PMKVWrapper.isDbValid]
  have empty : V.pools next path = some ∅ := by
    rw [pools, Function.update_self]
  rw [started]
  refine ⟨⟨passing.noFailure, passing.lines⟩, db, rfl, only, ∅, ⟨handle, empty⟩, ?_⟩
  intro key value
  simp only [Finmap.lookup_empty, reduceCtorEq, false_iff, not_exists, not_and]
  omega

include laws removes creatable in
theorem Fixture.Binds.cleanup {printed : List (Nat × Nat)} {window : Nat × Nat}
    {fixture : Fixture E} (binds : fixture.Binds V path window)
    (passing : fixture.Passing printed)
    : (fixture.cleanup remove path poolSize).Passing printed
      ∧ (fixture.cleanup remove path poolSize).Binds V path (0, 0) :=
  start_create laws removes creatable passing (binds.destroy laws).1

end Create

variable (laws : E.CmapLaws V) (room : V.AlwaysRoom)

include laws room in
/-- The parent's `FillSeq` binds all numbers. -/
theorem Fixture.Binds.fillSeq (bounded : numOp < intMax) {printed : List (Nat × Nat)}
    {fixture : Fixture E} (binds : fixture.Binds V path (0, 0))
    (passing : fixture.Passing printed)
    : ∃ filled, fixture.fillSeq numOp = some filled ∧ filled.Passing printed
      ∧ filled.Binds V path (0, numOp) := by
  obtain ⟨db, kv, holds⟩ := binds
  obtain ⟨final, done, only, contents, live, exact⟩ :=
    (fillSeq_invariant laws room numOp holds).finishes bounded (Nat.lt_succ_self numOp)
  refine ⟨{ fixture with engine := final }, ?_, ⟨passing.noFailure, passing.lines⟩, db, kv,
    only, contents, live, exact.congr (fun i => ?_)⟩
  · simp only [Fixture.fillSeq, kv, done]
  · simp only
    omega

include laws room in
/-- The child's workload keeps to the window of its test. -/
theorem RecoveryTest.invariant (test : RecoveryTest) {db : E.Db} {start : E.State}
    (holds : Holds V db path
      (fun i => (test.window numOp 0).1 < i ∧ i ≤ (test.window numOp 0).2) start)
    : LoopInvariant numOp (test.call ⟨some db⟩)
        (fun n => Holds V db path
          (fun i => (test.window numOp n).1 < i ∧ i ≤ (test.window numOp n).2)) start := by
  have congr {left right : Nat → Prop} (same : ∀ i, left i ↔ right i) (state : E.State)
      : Holds V db path left state ↔ Holds V db path right state := by
    rw [show left = right from funext fun i => propext (same i)]
  cases test with
  | fillSeq =>
      refine (fillSeq_invariant laws room numOp holds).congr (fun n _ => congr fun i => ?_)
      simp only [window]
      omega
  | overwriteSeq =>
      refine (fillSeq_invariant laws room numOp holds).congr (fun n last => congr fun i => ?_)
      simp only [window]
      omega
  | deleteSeq =>
      have full : Holds V db path (fun i => 1 ≤ i ∧ i ≤ numOp) start := holds
      exact deleteSeq_invariant laws numOp full

variable (poolSize) in
include laws in
/-- After a crash the pool is opened again, and the check prints twice the size of the
window.
-/
theorem Fixture.Binds.recover (bounded : numOp < intMax) {printed : List (Nat × Nat)}
    {window : Nat × Nat} (inside : window.2 ≤ numOp) {fixture : Fixture E}
    (binds : fixture.Binds V path window) (passing : fixture.Passing printed)
    : ∃ checked,
        ({ fixture with engine := E.crash fixture.engine }.restart path poolSize).sanityCheck
          numOp = some checked
        ∧ checked.Passing (printed ++ [(window.2 - window.1, window.2 - window.1)])
        ∧ checked.Binds V path window := by
  obtain ⟨db, kv, only, contents, live, exact⟩ := binds
  obtain ⟨durable, sameHandles⟩ := laws.crash fixture.engine
  have crashed : ({ fixture with engine := E.crash fixture.engine }).Binds V path window := by
    refine ⟨db, kv, fun other different => ?_, contents, ⟨?_, ?_⟩, exact⟩
    · rw [sameHandles, only other different]
    · rw [sameHandles, live.1]
    · rw [durable, live.2]
  obtain ⟨closed, samePools⟩ := crashed.destroy laws
  have present := samePools.trans durable ▸ live.2
  obtain ⟨fresh, next, opened, handle, lone, pools⟩ :=
    laws.openExisting poolSize closed present
  have reopened : { fixture with engine := E.crash fixture.engine }.restart path poolSize
      = { fixture with engine := next, kv := ⟨some fresh⟩ } := by
    simp [restart, start, Harness.construct, pmkvOpen, opened, PMKVWrapper.isDbValid]
  have again : V.Live next fresh path contents := ⟨handle, by rw [pools, present]⟩
  have found : agreements contents (List.range' 1 numOp) toDecimal expectedValue
      = window.2 - window.1 := by
    rw [exact.agreements (fun i chosen => by omega), countP_window, Nat.min_eq_left inside]
  have counted : contents.keys.card = window.2 - window.1 := by
    rw [← found]
    exact (submapOf_iff_card contents (decimalKeys_nodup numOp)).mp
      (exact.onlyExpected (fun i chosen => by omega))
  have small : numOp + 1 < sizeMod := by
    simp only [intMax, sizeMod] at bounded ⊢
    omega
  have loop := sanityLoop_eq laws again small (numOp + 1) 1 0 (by omega) (by omega)
  rw [if_pos (by omega), Nat.add_sub_cancel, Nat.zero_add, found] at loop
  refine ⟨{ fixture with
      engine := next
      kv := ⟨some fresh⟩
      printed := fixture.printed ++ [(window.2 - window.1, window.2 - window.1)] },
    ?_, ⟨passing.noFailure, by rw [passing.lines]⟩, fresh, rfl, lone, contents, again, exact⟩
  rw [reopened, Fixture.sanityCheck, Harness.countAll_of_live laws again]
  simp [loop, counted]

variable (removes : RemovesPool V path remove) (creatable : V.creatable path poolSize = true)

include laws room removes creatable in
/-- One iteration passes and prints how many operations of the child were effective. -/
theorem RecoveryTest.iteration_passes (bounded : numOp < intMax) (test : RecoveryTest)
    (kill : Kill) {printed : List (Nat × Nat)} {window : Nat × Nat} {fixture : Fixture E}
    (binds : fixture.Binds V path window) (passing : fixture.Passing printed)
    : ∃ next, test.iteration remove path poolSize numOp fixture kill = some next
      ∧ next.Passing (printed ++ [(test.recovered numOp kill, test.recovered numOp kill)])
      ∧ ∃ window, next.Binds V path window := by
  obtain ⟨passing, empty⟩ := binds.cleanup laws removes creatable passing
  have forks : ∃ forked,
      test.prepare numOp (fixture.cleanup remove path poolSize) = some forked
      ∧ forked.Passing printed ∧ forked.Binds V path (test.window numOp 0) := by
    cases test with
    | fillSeq => exact ⟨_, rfl, passing, empty⟩
    | overwriteSeq => exact empty.fillSeq laws room bounded passing
    | deleteSeq => exact empty.fillSeq laws room bounded passing
  obtain ⟨forked, fork, passing, db, kv, holds⟩ := forks
  obtain ⟨left, leaves, held⟩ :=
    (test.invariant laws room holds).childLeaves bounded kill
  have inside : (test.window numOp (kill.effective numOp)).2 ≤ numOp := by
    cases test with
    | fillSeq => exact Nat.min_le_left _ _
    | overwriteSeq => exact Nat.le_refl _
    | deleteSeq => exact Nat.le_refl _
  have binds : ({ forked with engine := left }).Binds V path
      (test.window numOp (kill.effective numOp)) := ⟨db, kv, held⟩
  obtain ⟨checked, check, passed, final⟩ :=
    binds.recover poolSize laws bounded inside ⟨passing.noFailure, passing.lines⟩
  refine ⟨checked, ?_, passed, _, final⟩
  rw [← kv] at leaves
  simp only [iteration, fork, Option.bind_eq_bind, Option.bind_some, leaves]
  exact check

include laws room removes creatable in
/-- All iterations of a test pass, by induction on them. -/
theorem RecoveryTest.iterations_pass (bounded : numOp < intMax) (test : RecoveryTest)
    (kills : List Kill) {printed : List (Nat × Nat)} {window : Nat × Nat} {fixture : Fixture E}
    (binds : fixture.Binds V path window) (passing : fixture.Passing printed)
    : ∃ final, kills.foldlM (test.iteration remove path poolSize numOp) fixture = some final
      ∧ final.Passing (printed
          ++ kills.map (fun kill => (test.recovered numOp kill, test.recovered numOp kill)))
      ∧ ∃ window, final.Binds V path window := by
  induction kills generalizing printed window fixture with
  | nil => exact ⟨fixture, rfl, by simpa using passing, window, binds⟩
  | cons kill kills ih =>
      obtain ⟨next, stepped, passing, window, binds⟩ :=
        test.iteration_passes laws room removes creatable bounded kill binds passing
      obtain ⟨final, ran, passed, bound⟩ := ih binds passing
      refine ⟨final, ?_, ?_, bound⟩
      · rw [List.foldlM_cons, stepped]
        exact ran
      · simpa using passed

include laws room removes creatable in
theorem RecoveryTest.runTest_passes (bounded : numOp < intMax) (test : RecoveryTest)
    (kills : List Kill) {engine : E.State} (closed : V.Closed engine)
    : ∃ final, test.runTest remove path poolSize numOp kills engine
        = some (⟨true, kills.map (fun kill =>
            (test.recovered numOp kill, test.recovered numOp kill))⟩, final)
      ∧ V.Closed final := by
  have fresh : (⟨engine, ⟨none⟩, false, []⟩ : Fixture E).Passing [] := ⟨rfl, rfl⟩
  obtain ⟨passing, empty⟩ := Fixture.start_create laws removes creatable fresh closed
  obtain ⟨final, ran, passed, window, binds⟩ :=
    test.iterations_pass laws room removes creatable bounded kills empty passing
  refine ⟨final.kv.destroy final.engine, ?_, (binds.destroy laws).1⟩
  have begins : Fixture.construct remove path poolSize engine
      = Fixture.start path poolSize true ⟨remove engine, ⟨none⟩, false, []⟩ := rfl
  simp only [runTest, begins, ran, Option.bind_eq_bind, Option.bind_some, passed.noFailure,
    passed.lines, List.nil_append, Bool.not_false]

end Iterations

/-- On the reference implementation every sequence of the three recovery tests passes,
wherever the children are killed and whatever the pools hold before. Each iteration prints
both counts as the exact number of bindings that the effective operations of its child
leave: no completed operation is lost, and none that was not started appears.
-/
theorem recoveryTests_pass {E : Engine} {V : E.View} (laws : E.CmapLaws V)
    (room : V.AlwaysRoom) {path : String} {poolSize numOp : Nat}
    {remove : E.State → E.State} (removes : RemovesPool V path remove)
    (creatable : V.creatable path poolSize = true) (bounded : numOp < intMax)
    (tests : List (RecoveryTest × List Kill)) {engine : E.State} (closed : V.Closed engine)
    : ∃ final, RecoveryTest.runAll remove path poolSize numOp tests engine
        = some (tests.map (fun (test, kills) =>
            ⟨true, kills.map (fun kill =>
              (test.recovered numOp kill, test.recovered numOp kill))⟩), final)
      ∧ V.Closed final := by
  induction tests generalizing engine with
  | nil => exact ⟨engine, rfl, closed⟩
  | cons entry tests ih =>
      obtain ⟨test, kills⟩ := entry
      obtain ⟨next, ran, closed⟩ :=
        test.runTest_passes laws room removes creatable bounded kills closed
      obtain ⟨final, others, closed⟩ := ih closed
      refine ⟨final, ?_, closed⟩
      simp only [RecoveryTest.runAll, ran, others, Option.bind_eq_bind, Option.bind_some,
        List.map_cons]

/-- Witness: a fill killed inside its first put and after its last one, and a deletion killed
half way with the removal in flight applied.
-/
theorem recoveryTests_pass_two
    : ∃ final, @RecoveryTest.runAll tableEngine (removeTable "/mnt/ramdisk/test")
          "/mnt/ramdisk/test" 536870912 100000
          [(.fillSeq, [⟨0, true⟩, ⟨100001, false⟩]), (.deleteSeq, [⟨50000, true⟩])]
          TableState.empty
        = some ([⟨true, [(1, 1), (100000, 100000)]⟩, ⟨true, [(49999, 49999)]⟩], final)
      ∧ tableView.Closed final :=
  recoveryTests_pass tableEngine_cmapLaws tableView_alwaysRoom (removeTable_removes _)
    (by decide) (by decide)
    [(.fillSeq, [⟨0, true⟩, ⟨100001, false⟩]), (.deleteSeq, [⟨50000, true⟩])] (fun _ => rfl)

end PMKVLab.Recovery
