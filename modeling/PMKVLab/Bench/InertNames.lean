import PMKVLab.Bench.StoreLifecycle

/-! What an unknown or empty name in the list of benchmarks does. `Run` opens the store before
it looks whether the name has selected a method, so a name that selects none is inert only
where the store is open already or would be opened in the same way next.
-/

namespace PMKVLab.Bench

open PMKVLab.Library PMKVLab.Store

-----------------------------------------------------------------------------------------
-- Names that are skipped
-----------------------------------------------------------------------------------------

section Skipped

variable {E : Engine} (outside : Outside E) (pool : PoolFlags) (threads : Int)

/-- After `Open` there is a store, or the process has ended. -/
theorem openIfNull_opens (freshDb : Bool)
    : (openIfNull outside pool freshDb).Meets (fun _ => True) (fun _ p => p.kv.isSome = true)
        (fun _ => True) := by
  have created : (newWrapper pool freshDb : Running E Unit).Meets (fun _ => True)
      (fun _ p => p.kv.isSome = true) (fun _ => True) := by
    intro p _
    simp only [newWrapper, Program.run]
    rcases Harness.bench.construct E pool.db pool.size freshDb p.engine with ⟨what | wrapper, next⟩
    · trivial
    · rfl
  have removed : (removeWhen outside pool freshDb).Meets (fun p => True ∧ p.kv = none)
      (fun _ _ => True) (fun _ => True) := by
    cases freshDb with
    | false => exact fun _ _ => trivial
    | true => exact Program.meets_modify fun _ _ => trivial
  exact openIfNull_meets (removed.bind fun _ => created) fun _ _ isOpen => isOpen

/-- After a round there is a store, or the process has ended. -/
theorem runName_opens (name : List Char)
    : (runName outside pool threads name).Meets (fun _ => True) (fun _ p => p.kv.isSome = true)
        (fun _ => True) := by
  have discards (freshDb : Bool) : (discard outside pool freshDb).Meets (fun _ => True)
      (fun _ _ => True) (fun _ => True) := by
    intro p _
    rcases (discard outside pool freshDb).run p with ⟨stop | _, after⟩
    · trivial
    · trivial
  refine (discards _).bind fun _ => (openIfNull_opens outside pool _).bind fun _ => ?_
  unfold callSelected
  split
  · exact fun _ isOpen => isOpen
  · next method _ =>
    intro p isOpen
    simp only [callMethod, Program.run]
    rcases outside.runBenchmark p.trace _ p.kv p.engine with _ | next
    · trivial
    · exact isOpen

/-- A round for a name that does not fill. -/
theorem runName_of_not_fills {name : List Char} (other : ¬ Fills name)
    : runName outside pool threads name
      = openIfNull outside pool false >>= fun _ =>
          callSelected outside name (select threads name) := by
  unfold runName runSelected
  rw [select_of_not_fills other]
  rfl

theorem openIfNull_of_isSome (freshDb : Bool) {p : Process E} (isOpen : p.kv.isSome = true)
    : (openIfNull outside pool freshDb).run p = (.ok (), p) := by
  obtain ⟨wrapper, kv⟩ := Option.isSome_iff_exists.mp isOpen
  obtain ⟨_, engine, trace⟩ := p
  cases kv
  rfl

/-- With an open store an unknown name does nothing. -/
theorem runName_unknown {name : List Char} (unknown : Unknown name) {p : Process E}
    (isOpen : p.kv.isSome = true)
    : (runName outside pool threads name).run p = (.ok (), p) := by
  obtain ⟨wrapper, kv⟩ := Option.isSome_iff_exists.mp isOpen
  obtain ⟨_, engine, trace⟩ := p
  cases kv
  unfold runName
  rw [select_of_unknown unknown]
  rfl

theorem Unknown.not_fills {name : List Char} (unknown : Unknown name) : ¬ Fills name := by
  rintro (rfl | rfl)
  · exact unknown (by decide)
  · exact unknown (by decide)

/-- Without a store an unknown name opens the one that is there. -/
theorem runName_unknown_eq {name : List Char} (unknown : Unknown name)
    : runName outside pool threads name = openIfNull outside pool false := by
  rw [runName_of_not_fills outside pool threads unknown.not_fills, select_of_unknown unknown]
  exact bind_pure_unit

/-- Before a name that does not fill, an unknown name opens the store that would be opened
anyway.
-/
theorem unknown_then {name first : List Char} (unknown : Unknown name) (other : ¬ Fills first)
    : (runName outside pool threads name >>= fun _ => runName outside pool threads first)
      = runName outside pool threads first := by
  funext p
  have isOpen := openIfNull_opens outside pool false p trivial
  have once := runName_of_not_fills outside pool threads other
  change (runName outside pool threads name >>= fun _ => runName outside pool threads first).run p
    = (runName outside pool threads first).run p
  rw [runName_unknown_eq outside pool threads unknown, once, Program.run_bind, Program.run_bind]
  revert isOpen
  rcases (openIfNull outside pool false).run p with ⟨stop | _, after⟩
  · exact fun _ => rfl
  · -- the store is open now, so the second name does not open it again
    intro isOpen
    exact Program.run_bind_of_ok (openIfNull_of_isSome outside pool false isOpen)

end Skipped

-----------------------------------------------------------------------------------------
-- Insertions
-----------------------------------------------------------------------------------------

section Insertions

variable {E : Engine} (outside : Outside E) (pool : PoolFlags) (threads : Int)

/-- Two lists have `Run` perform the same opens, closes, removals and calls, and complete
alike.
-/
structure Inert (benchmarks inserted : List Char) (state : E.State) : Prop where
  performs : ((runFrom outside pool threads inserted).run (.start state)).2.trace
    = ((runFrom outside pool threads benchmarks).run (.start state)).2.trace
  completes : ((runFrom outside pool threads inserted).run (.start state)).1 = .ok ()
    ↔ ((runFrom outside pool threads benchmarks).run (.start state)).1 = .ok ()

/-- After another name an unknown name makes no difference. -/
theorem unknown_after {before after : List (List Char)} (earlier : before ≠ [])
    {name : List Char} (unknown : Unknown name) (p : Process E)
    : (forM (before ++ name :: after) (runName outside pool threads) : Running E PUnit).run p
      = (forM (before ++ after) (runName outside pool threads) : Running E PUnit).run p := by
  have isOpen : (forM before (runName outside pool threads) : Running E PUnit).Meets
      (fun _ => True) (fun _ p => p.kv.isSome = true) (fun _ => True) := by
    cases before with
    | nil => exact absurd rfl earlier
    | cons first rest =>
        rw [List.forM_cons]
        refine (runName_opens outside pool threads first).bind fun _ => ?_
        refine Program.meets_forM fun other _ => ?_
        exact (runName_opens outside pool threads other).weaken (fun _ _ => trivial)
          fun _ _ isOpen => isOpen
  have reached := isOpen p trivial
  rw [List.forM_append, List.forM_append, Program.run_bind, Program.run_bind]
  revert reached
  rcases (forM before (runName outside pool threads) : Running E PUnit).run p with
    ⟨stop | _, middle⟩
  · exact fun _ => rfl
  · intro isOpen
    rw [List.forM_cons]
    exact Program.run_bind_of_ok (runName_unknown outside pool threads unknown isOpen)

/-- The first event stays the first. -/
theorem head_append {trace : List (StoreEvent E)} {event : StoreEvent E}
    (first : trace.head? = some event) (more : List (StoreEvent E))
    : (trace ++ more).head? = some event := by
  rw [List.head?_append, first, Option.some_or]

theorem ignores_head (event : StoreEvent E)
    : IgnoresCalls (fun trace : List (StoreEvent E) => trace.head? = some event) where
  opened _ _ first := head_append first _
  closed _ first := head_append first _
  called _ _ _ _ first := head_append first _

theorem runName_keeps_head (event : StoreEvent E) (name : List Char)
    : (runName outside pool threads name).Keeps (fun p => p.trace.head? = some event) :=
  runName_keeps outside pool (ignores_head event) fun _ {_} first => head_append first _

/-- The first thing a fill does at the front of a list is to remove the file. -/
theorem fill_starts_with_removal {first : List Char} (fills : Fills first)
    (rest : List (List Char)) (state : E.State)
    : List.head? ((forM (first :: rest) (runName outside pool threads)
        : Running E PUnit).run (.start state)).2.trace = some (.removed pool.db) := by
  let fresh (p : Process E) : Prop := p.kv = none ∧ p.trace = []
  let removed (p : Process E) : Prop := p.trace.head? = some (.removed pool.db)
  have ignores := ignores_head (E := E) (.removed pool.db)
  have removes {p : Process E} (before : p.trace = [] ∨ removed p)
      : (p.trace ++ [StoreEvent.removed pool.db]).head? = some (.removed pool.db) := by
    rcases before with empty | earlier
    · rw [empty]
      rfl
    · exact head_append earlier _
  have discards : (discard outside pool true).Meets fresh
      (fun _ p => p.kv = none ∧ (p.trace = [] ∨ removed p)) removed := by
    rintro ⟨kv, engine, trace⟩ ⟨rfl, rfl⟩
    cases large : decide (0 < pool.dbSizeInGb) with
    | false =>
        have idle : (discard outside pool true).run ⟨none, engine, []⟩
            = (.ok (), ⟨none, engine, []⟩) := by
          simp only [discard, if_true, large]
          rfl
        rw [idle]
        exact ⟨rfl, .inl rfl⟩
    | true =>
        have gone : (discard outside pool true).run ⟨none, engine, []⟩
            = (.ok (), ⟨none, outside.remove pool.db engine, [.removed pool.db]⟩) := by
          simp only [discard, if_true, large]
          rfl
        rw [gone]
        exact ⟨rfl, .inr rfl⟩
  have opens : (openIfNull outside pool true).Meets
      (fun p => p.kv = none ∧ (p.trace = [] ∨ removed p)) (fun _ => removed) removed := by
    refine openIfNull_meets (Program.Meets.bind (Program.meets_modify fun p before => ?_)
      fun _ => (newWrapper_keeps pool ignores.toIgnores true).meets) fun p null isOpen => ?_
    · exact removes before.1.2
    · rw [null.1] at isOpen
      cases isOpen
  have round : (runName outside pool threads first).Meets fresh (fun _ => removed) removed :=
    runName_meets_of_fills fills discards opens fun method =>
      (callMethod_keeps outside ignores ⟨threads, first, method⟩).meets
  rw [List.forM_cons]
  refine (round.bind fun _ => Program.meets_forM fun name _ => ?_).ends ⟨rfl, rfl⟩
  exact (runName_keeps_head outside pool threads _ name).meets

/-- The first thing an unknown name does at the front of a list is to open the file, if that
succeeds.
-/
theorem unknown_starts_without_removal {name : List Char} (unknown : Unknown name)
    (rest : List (List Char)) (state : E.State)
    : List.head? ((forM (name :: rest) (runName outside pool threads)
        : Running E PUnit).run (.start state)).2.trace ≠ some (.removed pool.db) := by
  have round : (runName outside pool threads name).run (.start state)
      = (newWrapper pool false).run (.start state) := by
    rw [runName_unknown_eq outside pool threads unknown]
    rfl
  have constructed
      : (∃ what next, (newWrapper pool false).run (Process.start state)
          = (.error (.thrown what), ⟨none, next, []⟩))
        ∨ ∃ wrapper next, (newWrapper pool false).run (Process.start state)
          = (.ok (), ⟨some wrapper, next, [.opened false wrapper.kv]⟩) := by
    simp only [newWrapper, Program.run]
    rcases Harness.bench.construct E pool.db pool.size false (Process.start state).engine with
      ⟨what | wrapper, next⟩
    · exact .inl ⟨what, next, rfl⟩
    · exact .inr ⟨wrapper, next, rfl⟩
  rw [List.forM_cons, Program.run_bind, round]
  rcases constructed with ⟨what, next, failed⟩ | ⟨wrapper, next, succeeded⟩
  · rw [failed]
    intro removed
    cases removed
  · have kept : (forM rest (runName outside pool threads) : Running E PUnit).Keeps
        (fun p => p.trace.head? = some (.opened false wrapper.kv)) :=
      Program.keeps_forM fun other _ => runName_keeps_head outside pool threads _ other
    rw [succeeded]
    intro removed
    have first := kept ⟨some wrapper, next, [.opened false wrapper.kv]⟩ rfl
    cases first.symm.trans removed

end Insertions

/-- Inserting an unknown or empty name makes no difference exactly when it does not come to
stand before a fill at the front of the list: there it opens the pool that the fill is about
to remove, and a pool that cannot be opened ends the run.
-/
theorem inert_iff {E : Engine} (outside : Outside E) (pool : PoolFlags) (threads : Int)
    (state : E.State) {benchmarks inserted name : List Char} {before after : List (List Char)}
    (unknown : Unknown name) (list : benchmarks.splitOn ',' = before ++ after)
    (longer : inserted.splitOn ',' = before ++ name :: after)
    : Inert outside pool threads benchmarks inserted state
      ↔ before ≠ [] ∨ ∀ first, after.head? = some first → ¬ Fills first := by
  constructor
  · intro inert
    by_contra front
    obtain ⟨rfl, first, head, fills⟩ : before = [] ∧ ∃ first, after.head? = some first
        ∧ Fills first := by
      simpa [not_or] using front
    obtain ⟨rest, rfl⟩ := List.head?_eq_some_iff.mp head
    have same := inert.performs
    rw [runFrom_eq_forM, runFrom_eq_forM, list, longer] at same
    have removed := fill_starts_with_removal outside pool threads fills rest state
    have other := unknown_starts_without_removal outside pool threads unknown (first :: rest)
      state
    exact other ((congrArg List.head? same).trans removed)
  · intro place
    have same : (runFrom outside pool threads inserted).run (.start state)
        = (runFrom outside pool threads benchmarks).run (.start state) := by
      rw [runFrom_eq_forM, runFrom_eq_forM, list, longer]
      by_cases earlier : before = []
      · subst earlier
        cases after with
        | nil => exact absurd list (List.splitOn_ne_nil _ _)
        | cons first rest =>
            have other : ¬ Fills first :=
              place.resolve_left (fun differs => differs rfl) first rfl
            rw [List.nil_append, List.nil_append, List.forM_cons, List.forM_cons, ← bind_assoc,
              unknown_then outside pool threads unknown other]
      · exact unknown_after outside pool threads earlier unknown _
    exact ⟨by rw [same], by rw [same]⟩

/-- An unknown name behind a benchmark, on a pool that exists. -/
theorem inert_after_readseq
    : Inert tableOutside ⟨"/mnt/ramdisk/bench", 1⟩ 1 "readseq".toList "readseq,unknown".toList
        (existingPool "/mnt/ramdisk/bench") := by
  have unknown : Unknown "unknown".toList := by
    simp only [Unknown]
    decide
  have list : "readseq".toList.splitOn ',' = ["readseq".toList] ++ [] := by decide
  have longer : "readseq,unknown".toList.splitOn ','
      = ["readseq".toList] ++ ["unknown".toList] := by
    decide
  exact (inert_iff tableOutside ⟨"/mnt/ramdisk/bench", 1⟩ 1 (existingPool "/mnt/ramdisk/bench")
    unknown list longer).mpr (.inl (List.cons_ne_nil _ _))

/-- An empty name before a fill, on a pool that does not exist yet: the fill alone creates it
and completes, with the empty name the run ends in an exception.
-/
theorem empty_name_before_fillseq
    : ((runFrom tableOutside ⟨"/mnt/ramdisk/bench", 1⟩ 1 "fillseq".toList).run
        (.start TableState.empty)).1 = .ok ()
      ∧ ((runFrom tableOutside ⟨"/mnt/ramdisk/bench", 1⟩ 1 ",fillseq".toList).run
        (.start TableState.empty)).1 = .error (.thrown "Failed to open kv file")
      ∧ ¬ Inert tableOutside ⟨"/mnt/ramdisk/bench", 1⟩ 1 "fillseq".toList ",fillseq".toList
        TableState.empty := by
  have alone : ((runFrom tableOutside ⟨"/mnt/ramdisk/bench", 1⟩ 1 "fillseq".toList).run
      (.start TableState.empty)).1 = .ok () := by
    rw [runFrom_eq_forM]
    decide +kernel
  have behind : ((runFrom tableOutside ⟨"/mnt/ramdisk/bench", 1⟩ 1 ",fillseq".toList).run
      (.start TableState.empty)).1 = .error (.thrown "Failed to open kv file") := by
    rw [runFrom_eq_forM]
    decide +kernel
  refine ⟨alone, behind, fun inert => ?_⟩
  cases behind.symm.trans (inert.completes.mpr alone)

end PMKVLab.Bench
