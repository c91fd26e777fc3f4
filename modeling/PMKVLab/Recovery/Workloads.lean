import PMKVLab.Recovery.CrashPoints

/-! The workloads `FillSeq` and `DeleteSeq` on the reference implementation: what the pool
holds after any number of their operations, and that the check passes after every crash.
-/

namespace PMKVLab.Recovery

open PMKVLab.Library
open PMKVLab.Store

section Workloads

variable {E : Engine}

/-- The body of `FillSeq`. -/
def fillCall (wrapper : PMKVWrapper E) (i : Nat) (state : E.State)
    : Except String Status × E.State :=
  Harness.tests.put wrapper (toDecimal i) (expectedValue i) state

/-- The body of `DeleteSeq`. -/
def deleteCall (wrapper : PMKVWrapper E) (i : Nat) (state : E.State)
    : Except String Status × E.State :=
  let (s, next) := wrapper.remove (toDecimal i) state
  (.ok s, next)

/-- `Restart`: close the old wrapper and open the existing pool again. -/
def restart (path : String) (poolSize : Nat) (wrapper : PMKVWrapper E) (state : E.State)
    : Except String (PMKVWrapper E) × E.State :=
  Harness.tests.construct E path poolSize false (wrapper.destroy state)

/-- After a crash that leaves `crashed`, `Restart` succeeds and the check passes. -/
def RecoversSane (numOp : Nat) (path : String) (poolSize : Nat) (wrapper : PMKVWrapper E)
    (crashed : E.State)
    : Prop :=
  ∃ reopened next, restart path poolSize wrapper (E.crash crashed) = (.ok reopened, next)
    ∧ reopened.isDbValid = true ∧ SanityPasses numOp reopened next

/-- A workload survives every crash: each number of completed operations is reached, and
every crash point recovers.
-/
structure CrashSafe (numOp : Nat) (path : String) (poolSize : Nat) (wrapper : PMKVWrapper E)
    (call : Nat → E.State → Except String Status × E.State) (start : E.State)
    : Prop where
  reached
    : ∀ n, n ≤ numOp → n < intMax
        → ∃ state, loopAfter numOp call n start = .running (n + 1) state
  recovers
    : ∀ n crashed, CrashPoint numOp call start n crashed
        → RecoversSane numOp path poolSize wrapper crashed

end Workloads

/-- The map binds exactly the expected bindings of the selected numbers. -/
def ExactlyExpected (selected : Nat → Prop) (contents : Contents) : Prop :=
  ∀ key value, contents.lookup key = some value
    ↔ ∃ i, selected i ∧ key = toDecimal i ∧ value = expectedValue i

/-- An expected put adds its number to the selection. -/
theorem ExactlyExpected.insert {selected : Nat → Prop} {contents : Contents}
    (exact : ExactlyExpected selected contents) (i : Nat)
    : ExactlyExpected (fun j => selected j ∨ j = i)
        (contents.insert (toDecimal i) (expectedValue i)) := by
  intro key value
  rw [lookup_insert_eq]
  split
  · next same =>
      constructor
      · intro found
        cases found
        exact ⟨i, Or.inr rfl, same, rfl⟩
      · rintro ⟨j, _, other, rfl⟩
        rw [expectedValue, expectedValue, ← other, same]
  · next different =>
      rw [exact key value]
      constructor
      · rintro ⟨j, chosen, found⟩
        exact ⟨j, Or.inl chosen, found⟩
      · rintro ⟨j, chosen | rfl, rfl, found⟩
        · exact ⟨j, chosen, rfl, found⟩
        · exact absurd rfl different

/-- An expected removal takes its number out of a selection of positive numbers, since
decimal keys are distinct.
-/
theorem ExactlyExpected.erase {selected : Nat → Prop} {contents : Contents}
    (exact : ExactlyExpected selected contents) (positive : ∀ j, selected j → 0 < j)
    {i : Nat} (pos : 0 < i)
    : ExactlyExpected (fun j => selected j ∧ j ≠ i) (contents.erase (toDecimal i)) := by
  intro key value
  rw [lookup_erase_eq]
  split
  · next same =>
      constructor
      · intro found
        cases found
      · rintro ⟨j, ⟨chosen, different⟩, other, _⟩
        exact absurd (toDecimal_injective (positive j chosen) pos (other.symm.trans same))
          different
  · next different =>
      rw [exact key value]
      constructor
      · rintro ⟨j, chosen, rfl, found⟩
        exact ⟨j, ⟨chosen, fun same => different (by rw [same])⟩, rfl, found⟩
      · rintro ⟨j, ⟨chosen, _⟩, found⟩
        exact ⟨j, chosen, found⟩

/-- Selections with the same numbers are interchangeable. -/
theorem ExactlyExpected.congr {left right : Nat → Prop} {contents : Contents}
    (exact : ExactlyExpected left contents) (same : ∀ i, left i ↔ right i)
    : ExactlyExpected right contents := by
  intro key value
  simp only [exact key value, same]

/-- A selection among the numbers of a workload holds only expected bindings. -/
theorem ExactlyExpected.onlyExpected {selected : Nat → Prop} {contents : Contents}
    (exact : ExactlyExpected selected contents) {numOp : Nat}
    (among : ∀ i, selected i → 1 ≤ i ∧ i ≤ numOp)
    : OnlyExpected numOp contents := by
  intro key value found
  obtain ⟨i, chosen, named⟩ := (exact key value).mp found
  have range := among i chosen
  exact ⟨i, by simp only [List.mem_range'_1]; omega, named⟩

section Crashes

variable {E : Engine} {V : E.View} {db : E.Db} {path : String}

/-- `db` is the only live handle, and its map binds exactly the selected numbers. -/
def Holds (V : E.View) (db : E.Db) (path : String) (selected : Nat → Prop)
    (state : E.State)
    : Prop :=
  (∀ other, other ≠ db → V.handle state other = none)
  ∧ ∃ contents, V.Live state db path contents ∧ ExactlyExpected selected contents

/-- One iteration of `FillSeq` succeeds and selects its number. -/
theorem fillCall_holds (laws : E.CmapLaws V) (room : V.AlwaysRoom)
    {selected : Nat → Prop} {state : E.State} (holds : Holds V db path selected state)
    (i : Nat)
    : (fillCall ⟨some db⟩ i state).1 = .ok .ok
      ∧ Holds V db path (fun j => selected j ∨ j = i) (fillCall ⟨some db⟩ i state).2 := by
  obtain ⟨only, contents, live, exact⟩ := holds
  obtain ⟨ok, updates⟩ := Harness.put_of_live laws live .tests
    (room state db (toDecimal i) (expectedValue i))
  refine ⟨ok, ?_, contents.insert (toDecimal i) (expectedValue i),
    live.of_updates updates, exact.insert i⟩
  intro other different
  exact (congrFun updates.2 other).trans (only other different)

/-- One iteration of `DeleteSeq` on a selected number succeeds and unselects it. -/
theorem deleteCall_holds (laws : E.CmapLaws V) {selected : Nat → Prop} {state : E.State}
    (holds : Holds V db path selected state) (positive : ∀ j, selected j → 0 < j) {i : Nat}
    (chosen : selected i)
    : (deleteCall ⟨some db⟩ i state).1 = .ok .ok
      ∧ Holds V db path (fun j => selected j ∧ j ≠ i) (deleteCall ⟨some db⟩ i state).2 := by
  obtain ⟨only, contents, live, exact⟩ := holds
  obtain ⟨status, updates⟩ := PMKVWrapper.remove_of_live laws live (toDecimal i)
  have bound : toDecimal i ∈ contents :=
    Finmap.mem_of_lookup_eq_some
      ((exact (toDecimal i) (expectedValue i)).mpr ⟨i, chosen, rfl, rfl⟩)
  rw [if_pos bound] at status
  refine ⟨congrArg Except.ok status, ?_, contents.erase (toDecimal i),
    live.of_updates updates, exact.erase positive (positive i chosen)⟩
  intro other different
  exact (congrFun updates.2 other).trans (only other different)

/-- Any crash state that holds only selected numbers recovers. Witness: the pool is durable,
so `Restart` reopens it, and the check accepts every sub-map of the expected map.
-/
theorem Holds.recoversSane (laws : E.CmapLaws V) {numOp : Nat}
    (bound : numOp + 1 < sizeMod) (poolSize : Nat) {selected : Nat → Prop}
    (among : ∀ i, selected i → 1 ≤ i ∧ i ≤ numOp) {crashed : E.State}
    (holds : Holds V db path selected crashed)
    : RecoversSane numOp path poolSize ⟨some db⟩ crashed := by
  obtain ⟨only, contents, live, exact⟩ := holds
  obtain ⟨durable, sameHandles⟩ := laws.crash crashed
  have handle : V.handle (E.crash crashed) db = some path := by rw [sameHandles, live.1]
  obtain ⟨dead, others, samePools⟩ := laws.close handle
  have closed : V.Closed (E.pmemkvClose (some db) (E.crash crashed)) := by
    intro other
    by_cases mine : other = db
    · exact mine ▸ dead
    · rw [others other mine, sameHandles, only other mine]
  have present : V.pools (E.pmemkvClose (some db) (E.crash crashed)) path
      = some contents := by
    rw [samePools, durable, live.2]
  obtain ⟨fresh, next, opened, newHandle, _, newPools⟩ :=
    laws.openExisting poolSize closed present
  have reopened : restart path poolSize ⟨some db⟩ (E.crash crashed)
      = (.ok ⟨some fresh⟩, next) := by
    simp [restart, Harness.construct, PMKVWrapper.destroy, pmkvClose, pmkvOpen, opened]
  refine ⟨⟨some fresh⟩, next, reopened, rfl, ?_⟩
  exact (sanityPasses_iff laws ⟨newHandle, by rw [newPools, present]⟩ bound).mpr
    (exact.onlyExpected among)

/-- A workload whose invariant selects only its own numbers is crash safe. -/
theorem CrashSafe.of_invariant (laws : E.CmapLaws V) {numOp : Nat}
    (bound : numOp + 1 < sizeMod) (poolSize : Nat) {selected : Nat → Nat → Prop}
    (among : ∀ n, n ≤ numOp → ∀ i, selected n i → 1 ≤ i ∧ i ≤ numOp)
    {call : Nat → E.State → Except String Status × E.State} {start : E.State}
    (rule : LoopInvariant numOp call (fun n => Holds V db path (selected n)) start)
    : CrashSafe numOp path poolSize ⟨some db⟩ call start where
  reached n last counted := rule.reaches last counted
  recovers n crashed point := by
    obtain ⟨k, reached, holds⟩ := rule.crashed point
    exact holds.recoversSane laws bound poolSize (among k reached)

/-- `FillSeq` adds its numbers one by one to whatever of them is already there. -/
theorem fillSeq_invariant (laws : E.CmapLaws V) (room : V.AlwaysRoom) (numOp : Nat)
    {selected : Nat → Prop} {start : E.State} (holds : Holds V db path selected start)
    : LoopInvariant numOp (fillCall ⟨some db⟩)
        (fun n => Holds V db path (fun i => selected i ∨ (1 ≤ i ∧ i ≤ n))) start where
  initial := by
    obtain ⟨only, contents, live, exact⟩ := holds
    refine ⟨only, contents, live, exact.congr ?_⟩
    intro i
    constructor
    · exact Or.inl
    · rintro (chosen | range)
      · exact chosen
      · omega
  preserved n state _ held := by
    obtain ⟨ok, only, contents, live, exact⟩ := fillCall_holds laws room held (n + 1)
    refine ⟨ok, only, contents, live, exact.congr ?_⟩
    intro i
    constructor
    · rintro ((chosen | range) | rfl)
      · exact Or.inl chosen
      · exact Or.inr (by omega)
      · exact Or.inr (by omega)
    · rintro (chosen | range)
      · exact Or.inl (Or.inl chosen)
      · by_cases last : i = n + 1
        · exact Or.inr last
        · exact Or.inl (Or.inr (by omega))

/-- `DeleteSeq` over a completed `FillSeq` removes its numbers one by one. -/
theorem deleteSeq_invariant (laws : E.CmapLaws V) (numOp : Nat) {start : E.State}
    (holds : Holds V db path (fun i => 1 ≤ i ∧ i ≤ numOp) start)
    : LoopInvariant numOp (deleteCall ⟨some db⟩)
        (fun n => Holds V db path (fun i => n < i ∧ i ≤ numOp)) start where
  initial := holds
  preserved n state more held := by
    obtain ⟨ok, only, contents, live, exact⟩ :=
      deleteCall_holds laws held (fun i chosen => Nat.lt_of_le_of_lt (Nat.zero_le n) chosen.1)
        (i := n + 1) ⟨by omega, by omega⟩
    refine ⟨ok, only, contents, live, exact.congr ?_⟩
    intro i
    omega

end Crashes

/-- For every `NUM_OP` whose counting loop can end, the check passes on a pool exactly when
its map is a sub-map of the expected bindings. Hence it passes after every crash in
`FillSeq` on an empty pool, in `FillSeq` run again over a completed one, and in `DeleteSeq`
run over a completed one. Witness: each workload's loop invariant selects only its own
numbers.
-/
theorem sanityCheck_exact_and_crashSafe {E : Engine} {V : E.View} (laws : E.CmapLaws V)
    (room : V.AlwaysRoom) {numOp : Nat} (bound : numOp + 1 < sizeMod) {db : E.Db}
    {path : String} (poolSize : Nat)
    : (∀ state contents, V.Live state db path contents
        → (SanityPasses numOp ⟨some db⟩ state ↔ OnlyExpected numOp contents))
      ∧ ∀ start, V.Live start db path ∅
          → (∀ other, other ≠ db → V.handle start other = none)
          → CrashSafe numOp path poolSize ⟨some db⟩ (fillCall ⟨some db⟩) start
            ∧ ∀ iterations filled,
                loopAfter numOp (fillCall ⟨some db⟩) iterations start = .finished filled
                → CrashSafe numOp path poolSize ⟨some db⟩ (fillCall ⟨some db⟩) filled
                  ∧ CrashSafe numOp path poolSize ⟨some db⟩ (deleteCall ⟨some db⟩)
                      filled := by
  refine ⟨fun state contents live => sanityPasses_iff laws live bound, ?_⟩
  intro start live only
  have unselected : Holds V db path (fun _ => False) start :=
    ⟨only, ∅, live, by intro key value; simp⟩
  have filling := fillSeq_invariant laws room numOp unselected
  refine ⟨CrashSafe.of_invariant laws bound poolSize ?_ filling, ?_⟩
  · rintro n last i (impossible | range)
    · exact impossible.elim
    · omega
  · intro iterations filled done
    have full : Holds V db path (fun i => 1 ≤ i ∧ i ≤ numOp) filled := by
      obtain ⟨only, contents, live, exact⟩ := filling.finished done
      exact ⟨only, contents, live, exact.congr (by intro i; simp)⟩
    constructor
    · refine CrashSafe.of_invariant laws bound poolSize ?_
        (fillSeq_invariant laws room numOp full)
      rintro n last i (range | range)
      · exact range
      · omega
    · refine CrashSafe.of_invariant laws bound poolSize ?_
        (deleteSeq_invariant laws numOp full)
      intro n last i chosen
      omega

/-- The check passes on a pool that holds one of two expected bindings, and `FillSeq` of two
operations on an empty pool survives every crash.
-/
theorem sanityCheck_two_operations
    : SanityPasses (E := tableEngine) 2 ⟨some 0⟩
        (openedTable ((∅ : Contents).insert (toDecimal 1) (expectedValue 1)))
      ∧ CrashSafe (E := tableEngine) 2 "/mnt/ramdisk/test" 536870912 ⟨some 0⟩
          (fillCall ⟨some 0⟩) (openedTable ∅) := by
  obtain ⟨exact, safe⟩ := sanityCheck_exact_and_crashSafe tableEngine_cmapLaws
    tableView_alwaysRoom (by decide : 2 + 1 < sizeMod) 536870912
  have lone : ∀ other, other ≠ 0 → tableView.handle (openedTable ∅) other = none := by
    intro other different
    simp [openedTable, different]
  refine ⟨(exact _ _ (openedTable_live _)).mpr ?_, (safe _ (openedTable_live ∅) lone).1⟩
  intro key value found
  rw [lookup_insert_eq] at found
  split at found
  · next same =>
      cases found
      exact ⟨1, by decide, same, rfl⟩
  · simp at found

/-- With `NUM_OP` equal to `SIZE_MAX` the check never passes, not even on an empty pool,
which is a sub-map of every expected map.
-/
theorem sanityCheck_sizeMax_never_passes
    : OnlyExpected (sizeMod - 1) ∅
      ∧ ¬ SanityPasses (E := tableEngine) (sizeMod - 1) ⟨some 0⟩ (openedTable ∅) := by
  constructor
  · intro key value found
    simp at found
  · rintro ⟨fuel, passed⟩
    rw [sanityCheck, Harness.countAll_of_live tableEngine_cmapLaws (openedTable_live ∅),
      sanityLoop_maximal _ _ fuel 1 0 (by decide)] at passed
    cases passed

end PMKVLab.Recovery
