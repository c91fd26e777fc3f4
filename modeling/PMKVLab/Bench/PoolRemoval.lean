import PMKVLab.Bench.StoreLifecycle

/-! When `Run` removes the file of the pool. The size flag guards one of the two removals
only: `Open` removes the file before every fill.
-/

namespace PMKVLab.Bench

open PMKVLab.Library PMKVLab.Store

section Removals

variable {E : Engine} (outside : Outside E) (pool : PoolFlags) (threads : Int)

/-- The file has not been removed. -/
def Untouched (trace : List (StoreEvent E)) : Prop := ∀ path, .removed path ∉ trace

theorem ignores_untouched : IgnoresCalls (Untouched (E := E)) where
  opened create kv untouched path := by simpa using untouched path
  closed kv untouched path := by simpa using untouched path
  called call kv start left untouched path := by simpa using untouched path

theorem ignores_removed (path : String)
    : IgnoresCalls (fun trace : List (StoreEvent E) => .removed path ∈ trace) where
  opened _ _ removed := List.mem_append_left _ removed
  closed _ removed := List.mem_append_left _ removed
  called _ _ _ _ removed := List.mem_append_left _ removed

/-- A name that does not fill removes nothing. -/
theorem runName_untouched {name : List Char} (other : ¬ Fills name)
    : (runName outside pool threads name).Keeps (fun p => Untouched p.trace) := by
  refine runName_keeps outside pool ignores_untouched fun fresh => ?_
  rw [select_of_not_fills other] at fresh
  cases fresh

/-- A removal stays in the trace. -/
theorem runName_keeps_removed (path : String) (name : List Char)
    : (runName outside pool threads name).Keeps (fun p => .removed path ∈ p.trace) :=
  runName_keeps outside pool (ignores_removed path)
    fun _ {_} removed => List.mem_append_left _ removed

/-- A fill removes the file, whatever the size: `Open` does. -/
theorem runName_fill_removes {name : List Char} (fills : Fills name) (p : Process E)
    : .removed pool.db ∈ ((runName outside pool threads name).run p).2.trace := by
  let gone (p : Process E) : Prop := .removed pool.db ∈ p.trace
  have ignores := ignores_removed (E := E) pool.db
  have deletes : (deleteKv : Running E Unit).Meets (fun _ => True) (fun _ p => p.kv = none)
      gone := by
    intro p _
    rcases p with ⟨_ | wrapper, engine, trace⟩ <;> rfl
  have closes (condition : Bool)
      : (removeWhen outside pool condition).Meets (fun p => p.kv = none) (fun _ p => p.kv = none)
          gone := by
    cases condition with
    | false => exact fun _ null => null
    | true => exact Program.meets_modify fun _ null => null
  have removes : (removeWhen outside pool true).Meets (fun p => p.kv = none ∧ p.kv = none)
      (fun _ => gone) gone :=
    Program.meets_modify fun p _ => by simp [gone]
  have round : (runName outside pool threads name).Meets (fun _ => True) (fun _ => gone) gone :=
    runName_meets_of_fills fills (deletes.bind fun _ => closes _)
      (openIfNull_meets
        (removes.bind fun _ => (newWrapper_keeps pool ignores.toIgnores true).meets)
        fun p null isOpen => absurd isOpen (by simp [null]))
      fun method => (callMethod_keeps outside ignores ⟨threads, name, method⟩).meets
  exact round.ends trivial

end Removals

-----------------------------------------------------------------------------------------
-- A pool that exists
-----------------------------------------------------------------------------------------

section Existing

variable (pool : PoolFlags) (threads : Int)

/-- The pool exists, and it can be opened when no store is open. -/
structure Available (p : Process tableEngine) : Prop where
  exist : (p.engine.pools pool.db).isSome = true
  closed : p.kv = none → tableView.Closed p.engine

/-- On the table engine a name that does not fill is gone through without an exception. -/
theorem runName_available {name : List Char} (other : ¬ Fills name)
    (failed : Process tableEngine → Prop)
    : (runName tableOutside pool threads name).Meets (Available pool)
        (fun _ => Available pool) failed := by
  have opens : (openStore tableOutside pool false).Meets
      (fun p => Available pool p ∧ p.kv = none) (fun _ => Available pool) failed := by
    rintro p ⟨available, null⟩
    obtain ⟨contents, present⟩ := Option.isSome_iff_exists.mp available.exist
    obtain ⟨db, next, constructed, pools⟩ := Harness.bench_construct_existing
      tableEngine_cmapLaws (available.closed null) pool.size present
    have run : (openStore tableOutside pool false).run p
        = (.ok (), ⟨some ⟨some db⟩, next, p.trace ++ [.opened false (some db)]⟩) := by
      change (newWrapper pool false).run p = _
      simp only [newWrapper, Program.run, constructed]
    have same : next.pools = p.engine.pools := pools
    rw [run]
    refine ⟨?_, fun null => absurd null (Option.some_ne_none _)⟩
    rw [same]
    exact available.exist
  exact runName_meets_of_not_fills other
    (openIfNull_meets opens fun _ available _ => available) (fun _ available => available)
    fun _ _ _ available => ⟨available.exist, available.closed⟩

/-- A list with a fill removes the file of an existing pool, by induction on the names. -/
theorem forM_removes {names : List (List Char)} (some : ∃ name ∈ names, Fills name)
    : (forM names (runName tableOutside pool threads) : Running tableEngine PUnit).Meets
        (Available pool) (fun _ p => .removed pool.db ∈ p.trace)
        (fun p => .removed pool.db ∈ p.trace) := by
  induction names with
  | nil =>
      obtain ⟨_, member, _⟩ := some
      cases member
  | cons head rest ih =>
      rw [List.forM_cons]
      by_cases fills : Fills head
      · have removes : (runName tableOutside pool threads head).Meets (Available pool)
            (fun _ p => .removed pool.db ∈ p.trace) (fun p => .removed pool.db ∈ p.trace) := by
          intro p _
          have gone := runName_fill_removes tableOutside pool threads fills p
          revert gone
          rcases (runName tableOutside pool threads head).run p with ⟨stop | _, after⟩
          · exact fun gone => gone
          · exact fun gone => gone
        exact removes.bind fun _ => Program.meets_forM fun name _ =>
          (runName_keeps_removed tableOutside pool threads pool.db name).meets
      · obtain ⟨name, member, found⟩ := some
        have later : ∃ name ∈ rest, Fills name := by
          rcases List.mem_cons.mp member with rfl | inRest
          · exact absurd found fills
          · exact ⟨name, inRest, found⟩
        exact (runName_available pool threads fills _).bind fun _ => ih later

end Existing

/-- No run of `Run` on a lawful engine removes the pool's file. -/
def NeverRemoves (pool : PoolFlags) (threads : Int) (benchmarks : List Char) : Prop :=
  ∀ (E : Engine) (V : E.View) (outside : Outside E) (state : E.State),
    E.CmapLaws V → outside.Laws V pool.db → V.Closed state
      → .removed pool.db
        ∉ ((runFrom outside pool threads benchmarks).run (.start state)).2.trace

/-- With the size flag at 0 the file of the pool is safe exactly when the list names neither
fill.
-/
theorem neverRemoves_iff (db : String) (threads : Int) (benchmarks : List Char)
    : NeverRemoves ⟨db, 0⟩ threads benchmarks
      ↔ ∀ name ∈ benchmarks.splitOn ',', name ≠ "fillseq".toList ∧ name ≠ "fillrandom".toList
    := by
  constructor
  · intro never name member
    rw [← not_or]
    intro fills
    have safe := never tableEngine tableView tableOutside (existingPool db)
      tableEngine_cmapLaws (tableOutside_laws db) fun _ => rfl
    have available : Available ⟨db, 0⟩ (.start (existingPool db)) :=
      ⟨by simp [Process.start, existingPool], fun _ _ => rfl⟩
    rw [runFrom_eq_forM] at safe
    exact safe ((forM_removes ⟨db, 0⟩ threads ⟨name, member, fills⟩).ends available)
  · intro harmless E V outside state _ _ _
    rw [runFrom_eq_forM]
    have start : Untouched (Process.start state).trace := fun _ => List.not_mem_nil
    have kept := Program.meets_forM fun name member =>
      (runName_untouched outside ⟨db, 0⟩ threads (not_or.mpr (harmless name member))).meets
    have untouched := kept.ends start
    exact untouched db

/-- A fill with the size flag at 0 removes an existing pool and cannot create a new one. -/
theorem fillseq_removes_existing_pool
    : let ended := (runFrom tableOutside ⟨"/mnt/ramdisk/bench", 0⟩ 1 "fillseq".toList).run
        (.start (existingPool "/mnt/ramdisk/bench"))
      .removed "/mnt/ramdisk/bench" ∈ ended.2.trace
      ∧ (existingPool "/mnt/ramdisk/bench").pools "/mnt/ramdisk/bench" = some ∅
      ∧ ended.2.engine.pools "/mnt/ramdisk/bench" = none
      ∧ ended.1 = .error (.thrown "Failed to open kv file") := by
  have only : "fillseq".toList.splitOn ',' = ["fillseq".toList] := by decide
  simp only [runFrom_eq_forM, only]
  refine ⟨?_, rfl, rfl, by decide +kernel⟩
  have available : Available ⟨"/mnt/ramdisk/bench", 0⟩
      (.start (existingPool "/mnt/ramdisk/bench")) :=
    ⟨rfl, fun _ _ => rfl⟩
  exact (forM_removes ⟨"/mnt/ramdisk/bench", 0⟩ 1
    ⟨_, List.mem_cons_self, .inl rfl⟩).ends available

end PMKVLab.Bench
