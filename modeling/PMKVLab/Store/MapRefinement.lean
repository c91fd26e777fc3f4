import PMKVLab.Store.Histories

/-! Every history made through a wrapper on the reference implementation is answered as by
the abstract map machine, in both harnesses.
-/

namespace PMKVLab.Store

open PMKVLab.Library

/-- A session and a map state agree: the engine's pools are the abstract maps, and the
wrapper, if any, holds the only live handle, onto the open map.
-/
inductive Related {E : Engine} (V : E.View) : Session E → MapState → Prop
  | closed {engine : E.State} {state : MapState} (pools : V.pools engine = state.pools)
    (none : state.current = none) (closed : V.Closed engine)
    : Related V ⟨engine, .none⟩ state
  | live {engine : E.State} {db : E.Db} {path : String} {state : MapState}
    (pools : V.pools engine = state.pools) (current : state.current = some path)
    (handle : V.handle engine db = some path)
    (only : ∀ other, other ≠ db → V.handle engine other = .none)
    : Related V ⟨engine, some ⟨some db⟩⟩ state

/-- Related states hold the same pools, by either constructor. -/
theorem Related.samePools {E : Engine} {V : E.View} {session : Session E}
    {state : MapState} (related : Related V session state)
    : V.pools session.engine = state.pools := by
  cases related with
  | closed pools _ _ => exact pools
  | live pools _ _ _ => exact pools

namespace MapState

/-- Without an open path there is no open map. -/
theorem contents?_of_none {state : MapState} (none : state.current = none)
    : state.contents? = .none := by
  simp [contents?, none]

/-- The open path always has a map behind it, by the field that backs it. -/
theorem contents?_of_current {state : MapState} {path : String}
    (current : state.current = some path)
    : ∃ contents, state.pools path = some contents
        ∧ state.contents? = some (path, contents) := by
  obtain ⟨contents, present⟩ := Option.isSome_iff_exists.mp (state.backed path current)
  exact ⟨contents, present, by simp [contents?, current, present]⟩

/-- Writing a map keeps all values short when the written map's values are short. -/
theorem Short.write {state : MapState} (short : state.Short) {path : String}
    {contents : Contents}
    (new : ∀ key value, contents.lookup key = some value → value.length < maxValLen)
    : (state.write path contents).Short := by
  intro other found key value pool lookup
  by_cases changed : other = path
  · subst changed
    have same : some contents = some found := by simpa [MapState.write] using pool
    cases same
    exact new key value lookup
  · have old : state.pools other = some found := by
      simpa [MapState.write, changed] using pool
    exact short other found key value old lookup

end MapState

section Steps

variable {E : Engine} {V : E.View}

/-- A related live session reads and writes the open map through its handle. -/
theorem Related.liveContents {engine : E.State} {db : E.Db} {path : String}
    {state : MapState} (pools : V.pools engine = state.pools)
    (current : state.current = some path) (handle : V.handle engine db = some path)
    : ∃ contents, V.Live engine db path contents
        ∧ state.contents? = some (path, contents)
        ∧ state.pools path = some contents := by
  obtain ⟨contents, present, opened⟩ := MapState.contents?_of_current current
  exact ⟨contents, ⟨handle, by rw [pools]; exact present⟩, opened, present⟩

/-- After an update of the open pool the session is related to the written map state. -/
theorem Related.of_updates {engine next : E.State} {db : E.Db} {path : String}
    {state : MapState} {contents : Contents} (pools : V.pools engine = state.pools)
    (current : state.current = some path) (handle : V.handle engine db = some path)
    (only : ∀ other, other ≠ db → V.handle engine other = none)
    (updates : V.Updates engine next path contents)
    : Related V ⟨next, some ⟨some db⟩⟩ (state.write path contents) := by
  obtain ⟨newPools, sameHandles⟩ := updates
  refine .live ?_ current ?_ ?_
  · rw [newPools, pools]
    rfl
  · rw [sameHandles]
    exact handle
  · rw [sameHandles]
    exact only

/-- A successful open gives both harnesses a valid wrapper. -/
theorem Session.open_of_handle (harness : Harness) {path : String} {size : Nat}
    {create : Bool} {engine next : E.State} {db : E.Db}
    (opened
      : E.pmemkvOpen "cmap" ⟨path, size, if create then 1 else 0⟩ engine
        = (pmemkvStatusOk, some db, next))
    : Session.step harness (.open path size create) ⟨engine, none⟩
      = (.opened true, ⟨next, some ⟨some db⟩⟩) := by
  have handle : pmkvOpen E path size (if create then 1 else 0) engine = (some db, next) := by
    simp [pmkvOpen, opened]
  cases harness with
  | tests => simp [Session.step, Harness.construct, handle, PMKVWrapper.isDbValid]
  | bench => simp [Session.step, Harness.construct, handle, PMKVWrapper.isDbValid]

/-- A failed open leaves both harnesses without a usable wrapper. -/
theorem Session.open_of_failure (harness : Harness) {path : String} {size : Nat}
    {create : Bool} {engine : E.State}
    (failed
      : (E.pmemkvOpen "cmap" ⟨path, size, if create then 1 else 0⟩ engine).1
        ≠ pmemkvStatusOk)
    : Session.step harness (.open path size create) ⟨engine, none⟩
      = (.opened false,
          ⟨(E.pmemkvOpen "cmap" ⟨path, size, if create then 1 else 0⟩ engine).2.2, none⟩) := by
  have null : pmkvOpen E path size (if create then 1 else 0) engine
      = (none, (E.pmemkvOpen "cmap" ⟨path, size, if create then 1 else 0⟩ engine).2.2) := by
    simp [pmkvOpen, failed]
  cases harness with
  | tests => simp [Session.step, Harness.construct, null, PMKVWrapper.isDbValid]
  | bench => simp [Session.step, Harness.construct, null]

/-- Constructing a wrapper answers and ends as the abstract open does. Witness: the
engine's four open laws, one per outcome.
-/
theorem Session.open_simulates (laws : E.CmapLaws V) (harness : Harness)
    (path : String) (size : Nat) (create : Bool) {engine : E.State} {state : MapState}
    (pools : V.pools engine = state.pools) (none : state.current = none)
    (closed : V.Closed engine)
    : (Session.step harness (.open path size create) ⟨engine, .none⟩).1
        = (state.step V.creatable (.open path size create)).1
      ∧ Related V (Session.step harness (.open path size create) ⟨engine, .none⟩).2
          (state.step V.creatable (.open path size create)).2 := by
  have idle := MapState.contents?_of_none none
  cases create with
  | true =>
      by_cases fresh : (state.pools path).isNone ∧ V.creatable path size
      · have absent : V.pools engine path = .none := by
          rw [pools]
          exact Option.isNone_iff_eq_none.mp fresh.1
        obtain ⟨db, next, opened, handle, only, created⟩ :=
          laws.createNew closed absent fresh.2
        rw [Session.open_of_handle harness opened]
        simp only [MapState.step, idle, if_true, fresh, and_self]
        exact ⟨trivial, .live (by rw [created, pools]; rfl) rfl handle only⟩
      · have refused : V.pools engine path ≠ .none ∨ V.creatable path size = false := by
          rw [pools]
          by_cases absent : state.pools path = .none
          · right
            simpa [absent] using fresh
          · exact Or.inl absent
        obtain ⟨failed, stillClosed, same⟩ := laws.createRefused closed refused
        rw [Session.open_of_failure harness failed]
        simp only [MapState.step, idle, if_true, fresh, if_false]
        exact ⟨trivial, .closed (same.trans pools) none stillClosed⟩
  | false =>
      by_cases present : (state.pools path).isSome
      · obtain ⟨contents, stored⟩ := Option.isSome_iff_exists.mp present
        have found : V.pools engine path = some contents := by rw [pools, stored]
        obtain ⟨db, next, opened, handle, only, same⟩ := laws.openExisting size closed found
        rw [Session.open_of_handle harness opened]
        simp only [MapState.step, idle, Bool.false_eq_true, if_false, present, dif_pos]
        exact ⟨trivial, .live (same.trans pools) rfl handle only⟩
      · have missing : V.pools engine path = .none := by
          rw [pools]
          simpa using present
        obtain ⟨failed, stillClosed, same⟩ := laws.openMissing size closed missing
        rw [Session.open_of_failure harness failed]
        simp only [MapState.step, idle, Bool.false_eq_true, if_false, present, dif_neg,
          not_false_eq_true]
        exact ⟨trivial, .closed (same.trans pools) none stillClosed⟩

/-- Calls made through a live wrapper answer and end as on the open map. Witness: one
engine law per call; the length bound makes every bound value fit the read buffer.
-/
theorem Session.live_simulates (laws : E.CmapLaws V) (room : V.AlwaysRoom)
    (harness : Harness) (call : Call) {engine : E.State} {db : E.Db} {path : String}
    {state : MapState} (short : state.Short) (pools : V.pools engine = state.pools)
    (current : state.current = some path) (handle : V.handle engine db = some path)
    (only : ∀ other, other ≠ db → V.handle engine other = none)
    : (Session.step harness call ⟨engine, some ⟨some db⟩⟩).1
        = (state.step V.creatable call).1
      ∧ Related V (Session.step harness call ⟨engine, some ⟨some db⟩⟩).2
          (state.step V.creatable call).2 := by
  obtain ⟨contents, live, opened, stored⟩ := Related.liveContents pools current handle
  have unchanged : Related V ⟨engine, some ⟨some db⟩⟩ state :=
    .live pools current handle only
  cases call with
  | «open» other size create =>
      simp only [Session.step, MapState.step, opened]
      exact ⟨trivial, unchanged⟩
  | put key value =>
      obtain ⟨answer, updates⟩ := harness.put_of_live laws live (room engine db key value)
      simp only [MapState.step, opened]
      cases outcome : harness.put ⟨some db⟩ key value engine with
      | mk result next =>
          rw [outcome] at answer updates
          simp only at answer updates
          subst answer
          simp only [Session.step, outcome]
          exact ⟨trivial, Related.of_updates pools current handle only updates⟩
  | get key value =>
      simp only [Session.step, MapState.step, opened,
        PMKVWrapper.get_of_live laws live key value]
      cases found : contents.lookup key with
      | none => exact ⟨rfl, unchanged⟩
      | some bound =>
          have fits := laws.fits_of_lt (short path contents key bound stored found)
          simp only [fits, if_true]
          exact ⟨trivial, unchanged⟩
  | remove key =>
      obtain ⟨answer, updates⟩ := PMKVWrapper.remove_of_live laws live key
      simp only [Session.step, MapState.step, opened]
      rw [answer]
      exact ⟨rfl, Related.of_updates pools current handle only updates⟩
  | existsKey key =>
      simp only [Session.step, MapState.step, opened,
        PMKVWrapper.existsKey_of_live laws live key]
      exact ⟨trivial, unchanged⟩
  | countAll cnt =>
      simp only [Session.step, MapState.step, opened,
        Harness.countAll_of_live laws live harness cnt]
      exact ⟨trivial, unchanged⟩
  | close =>
      obtain ⟨dead, others, same⟩ := laws.close handle
      simp only [Session.step, MapState.step, opened]
      refine ⟨trivial, .closed (same.trans pools) rfl ?_⟩
      intro other
      by_cases mine : other = db
      · exact mine ▸ dead
      · exact (others other mine).trans (only other mine)

/-- Short puts keep every stored value short, by cases on the call. -/
theorem MapState.Short.step {state : MapState} (short : state.Short)
    (creatable : String → Nat → Bool) {call : Call}
    (bounded : ∀ key value, call = .put key value → value.length < maxValLen)
    : (state.step creatable call).2.Short := by
  cases opened : state.contents? with
  | none =>
      cases call with
      | «open» path size create =>
          simp only [MapState.step, opened]
          split
          · split
            · have unbound : ∀ key value, (∅ : Contents).lookup key = some value
                  → value.length < maxValLen := by
                simp
              exact short.write unbound
            · exact short
          · split
            · exact short
            · exact short
      | put | get | remove | existsKey | countAll | close =>
          simpa only [MapState.step, opened] using short
  | some entry =>
      obtain ⟨path, contents⟩ := entry
      have stored : state.pools path = some contents := by
        simp only [contents?, Option.bind_eq_bind, Option.bind_eq_some_iff] at opened
        obtain ⟨_, _, _, pool, same⟩ := opened
        cases same
        exact pool
      cases call with
      | put key value =>
          simp only [MapState.step, opened]
          refine short.write ?_
          intro other found lookup
          rw [lookup_insert_eq] at lookup
          split at lookup
          · cases lookup
            exact bounded key value rfl
          · exact short path contents other found stored lookup
      | remove key =>
          simp only [MapState.step, opened]
          refine short.write ?_
          intro other found lookup
          rw [lookup_erase_eq] at lookup
          split at lookup
          · cases lookup
          · exact short path contents other found stored lookup
      | get key value =>
          simp only [MapState.step, opened]
          split
          · exact short
          · exact short
      | close =>
          simp only [MapState.step, opened]
          exact short
      | «open» | existsKey | countAll => simpa only [MapState.step, opened] using short

/-- One call answers alike on related states and keeps them related. -/
theorem Session.step_simulates (laws : E.CmapLaws V) (room : V.AlwaysRoom)
    (harness : Harness) (call : Call) {session : Session E} {state : MapState}
    (short : state.Short) (related : Related V session state)
    : (Session.step harness call session).1 = (state.step V.creatable call).1
      ∧ Related V (Session.step harness call session).2 (state.step V.creatable call).2 := by
  cases related with
  | live pools current handle only =>
      exact Session.live_simulates laws room harness call short pools current handle only
  | closed pools none closed =>
      cases call with
      | «open» path size create =>
          exact Session.open_simulates laws harness path size create pools none closed
      | put | get | remove | existsKey | countAll | close =>
          simp only [Session.step, MapState.step, MapState.contents?_of_none none]
          exact ⟨trivial, .closed pools none closed⟩

end Steps

/-- Every history made through either wrapper on the reference implementation is answered
exactly as by finite maps, and leaves exactly their contents in the pools. Witness: step
simulation, with the length of stored values as the carried invariant.
-/
theorem Session.history_refines_maps {E : Engine} {V : E.View} (laws : E.CmapLaws V)
    (room : V.AlwaysRoom) (harness : Harness) (calls : List Call)
    (shortPuts : ∀ key value, Call.put key value ∈ calls → value.length < maxValLen)
    (engine : E.State) (closed : V.Closed engine)
    (shortPools
      : ∀ path contents key value, V.pools engine path = some contents
          → contents.lookup key = some value → value.length < maxValLen)
    : (run (Session.step harness) calls ⟨engine, none⟩).1
        = (run (MapState.step V.creatable) calls (.closed (V.pools engine))).1
      ∧ V.pools (run (Session.step harness) calls ⟨engine, none⟩).2.engine
        = (run (MapState.step V.creatable) calls (.closed (V.pools engine))).2.pools := by
  let admitted (call : Call) : Prop :=
    ∀ key value, call = .put key value → value.length < maxValLen
  have start : Related V ⟨engine, none⟩ (MapState.closed (V.pools engine)) :=
    .closed rfl rfl closed
  obtain ⟨answers, related, _⟩ := run_simulates admitted
    (fun session state => Related V session state ∧ state.Short)
    (by
      intro call session state bounded ⟨related, short⟩
      obtain ⟨answer, next⟩ := Session.step_simulates laws room harness call short related
      exact ⟨answer, next, short.step V.creatable bounded⟩)
    calls
    (by
      intro call member key value same
      exact shortPuts key value (same ▸ member))
    ⟨start, shortPools⟩
  exact ⟨answers, related.samePools⟩

/-- A history with an empty key, a key with a NUL byte and its prefix, an overwrite, a
removal and a reopening.
-/
def sampleHistory : List Call :=
  [.open "/mnt/ramdisk/test" 536870912 true, .put [] [1], .put [97] [2],
    .put [97, 0, 98] [3, 0], .put [97] [], .get [97, 0, 98] [9], .remove [], .remove [],
    .countAll 7, .close, .open "/mnt/ramdisk/test" 536870912 false, .get [97] [9],
    .get [] [9], .existsKey [97, 0, 98], .existsKey []]

/-- The sample history is answered as by finite maps in the benchmark harness, with the
answers written out.
-/
theorem sampleHistory_refines_maps
    : (run (Session.step .bench) sampleHistory (⟨.empty, none⟩ : Session tableEngine)).1
        = (run (MapState.step tableView.creatable) sampleHistory
            (.closed TableState.empty.pools)).1
      ∧ (run (MapState.step tableView.creatable) sampleHistory
          (.closed TableState.empty.pools)).1
        = [.opened true, .status .ok, .status .ok, .status .ok, .status .ok,
            .value .ok [3, 0], .status .ok, .status .notFound, .count .ok 2, .closed,
            .opened true, .value .ok [], .value .notFound [9], .status .ok,
            .status .notFound] := by
  have shortPuts : ∀ key value, Call.put key value ∈ sampleHistory
      → value.length < maxValLen := by
    intro key value member
    have listed : value = [1] ∨ value = [2] ∨ value = [3, 0] ∨ value = [] := by
      simp only [sampleHistory, List.mem_cons, Call.put.injEq] at member
      tauto
    rcases listed with rfl | rfl | rfl | rfl <;> decide
  have refines := Session.history_refines_maps tableEngine_cmapLaws tableView_alwaysRoom
    .bench sampleHistory shortPuts TableState.empty (fun _ => rfl)
    (by intro path contents key value absent; cases absent)
  exact ⟨refines.1, by decide⟩

end PMKVLab.Store
