import PMKVLab.Bench.ReadWriteMix
import PMKVLab.Bench.Run
import PMKVLab.Bench.StoreLifecycle

/-! `Run` with `RunBenchmark` itself behind its calls: every benchmark works through the one
open handle, so the life of the store is the same whatever is run and however its threads are
scheduled.
-/

namespace PMKVLab.Bench

open PMKVLab.Library PMKVLab.Store

-----------------------------------------------------------------------------------------
-- Methods that keep a property of the store
-----------------------------------------------------------------------------------------

section Preserving

variable {Store Local Other : Type} {property : Store → Prop}

/-- A property of the store that puts and removals keep, whatever they return. -/
structure KV.Preserves (kv : KV Store) (property : Store → Prop) : Prop where
  put {store : Store} (key value : Bytes)
    : property store → property (kv.put key value store).2
  remove {store : Store} (key : Bytes) : property store → property (kv.remove key store).2

/-- The store that a step leaves has the property; after an abort there is none. -/
def Outcome.Leaves (property : Store → Prop) : Outcome Local Store → Prop
  | .continues _ store | .returns _ store => property store
  | .aborts => True

theorem Outcome.leaves_map {outcome : Outcome Local Store} (inject : Local → Other)
    (leaves : outcome.Leaves property)
    : (outcome.map inject).Leaves property := by
  cases outcome with
  | continues | returns => exact leaves
  | aborts => trivial

/-- Every step of the method keeps the property. -/
def Method.Preserves (M : Method Store) (property : Store → Prop) : Prop :=
  ∀ (shared : SharedState) (now : M.Local) (store : Store), property store
    → (M.step shared now store).Leaves property

/-- A complete run keeps what every step keeps. -/
theorem Method.Preserves.run {M : Method Store} (preserves : M.Preserves property)
    {store next : Store} {threads : Int} {schedule : List Action} {reports : List Report}
    (holds : property store)
    (ran : runBenchmark threads M schedule store = some (next, reports))
    : property next := by
  obtain ⟨_, s, reachable, _, ended⟩ := runBenchmark_eq_some ran
  cases ended
  have keeps : M.Keeps threads.toNat (fun _ store => property store) := by
    refine ⟨fun kept _ _ => kept, ?_, ?_⟩
    · intro _ _ _ _ _ _ _ kept _ stepped
      exact (stepped ▸ preserves _ _ _ kept : (Outcome.continues _ _).Leaves property)
    · intro _ _ _ _ _ _ _ kept _ stepped
      exact (stepped ▸ preserves _ _ _ kept : (Outcome.returns _ _).Leaves property)
  exact keeps.of_reachable holds reachable

variable {flags : Flags} {bm : Benchmark} {kv : KV Store}

/-- A loop keeps what the call of an iteration keeps. -/
theorem forLoop_preserves {body : LoopBody Store}
    (operation : ∀ {key store bytes found after}, property store
      → body.operation key store = some (bytes, found, after) → property after)
    : (forLoop flags bm body).Preserves property := by
  intro _ l store holds
  simp only [forLoop]
  split
  · split
    · trivial
    · split
      · trivial
      · next called => exact operation holds called
  · exact holds

variable (preserves : kv.Preserves property)

include preserves

theorem doWrite_preserves (seq : Bool) : (doWrite flags bm kv seq).Preserves property := by
  refine forLoop_preserves fun {key store bytes found after} holds wrote => ?_
  have stored := preserves.put key (List.replicate bm.valueSize.toNat 88) holds
  simp only [writeLoop] at wrote
  split at wrote
  · cases wrote
  · split at wrote
    · next next outcome =>
      cases wrote
      rw [outcome] at stored
      exact stored
    · cases wrote

theorem doDelete_preserves (seq : Bool) : (doDelete flags bm kv seq).Preserves property := by
  refine forLoop_preserves fun holds removed => ?_
  cases removed
  exact preserves.remove _ holds

omit preserves in
theorem doRead_preserves (seq missing : Bool)
    : (doRead flags bm kv seq missing).Preserves property := by
  refine forLoop_preserves fun holds read => ?_
  cases read
  exact holds

/-- The writer puts, and its readers change nothing. -/
theorem readWhileWriting_preserves : (readWhileWriting flags bm kv).Preserves property := by
  intro shared now store holds
  cases now with
  | inl w =>
      refine Outcome.leaves_map _ ?_
      simp only [bgWriter]
      split
      · split
        · exact holds
        · exact holds
      · unfold writerPut
        split
        · trivial
        · have stored := preserves.put (generateKeyFromInt bm.keySize
            (w.thread.rand.next.1 % toUInt32 flags.num) w.key)
            (w.gen.generate bm.valueSize.toNat).1 holds
          dsimp only
          split
          · next next outcome =>
            rw [outcome] at stored
            exact stored
          · trivial
  | inr l => exact Outcome.leaves_map _ (doRead_preserves false false shared l store holds)

theorem readRandomWriteRandom_preserves (percent : Int)
    : (readRandomWriteRandom flags bm kv percent).Preserves property := by
  have operates (m : MixState) {store : Store} (holds : property store)
      : (m.operate bm kv store).Leaves property := by
    unfold MixState.operate
    split
    · exact holds
    · split
      · unfold MixState.put
        split
        · trivial
        · have stored := preserves.put m.key (m.gen.generate bm.valueSize.toNat).1 holds
          dsimp only
          split
          · next next outcome =>
            rw [outcome] at stored
            exact stored
          · trivial
      · exact holds
  intro _ m store holds
  simp only [readRandomWriteRandom]
  split
  · exact holds
  · split
    · trivial
    · exact operates _ holds

end Preserving

-----------------------------------------------------------------------------------------
-- The methods of `Run`
-----------------------------------------------------------------------------------------

/-- The member functions, on the store behind `kv_`. -/
def MethodName.method {Store : Type} (flags : Flags) (bm : Benchmark) (kv : KV Store)
    (percent : Int) : MethodName → Method Store
  | .writeSeq => Bench.writeSeq flags bm kv
  | .writeRandom => Bench.writeRandom flags bm kv
  | .readSeq => Bench.readSeq flags bm kv
  | .readRandom => Bench.readRandom flags bm kv
  | .readMissing => Bench.readMissing flags bm kv
  | .deleteSeq => Bench.deleteSeq flags bm kv
  | .deleteRandom => Bench.deleteRandom flags bm kv
  | .readWhileWriting => Bench.readWhileWriting flags bm kv
  | .readRandomWriteRandom => Bench.readRandomWriteRandom flags bm kv percent

/-- Each of them keeps what puts and removals keep. -/
theorem MethodName.method_preserves {Store : Type} {kv : KV Store} {property : Store → Prop}
    (preserves : kv.Preserves property) (flags : Flags) (bm : Benchmark) (percent : Int)
    (name : MethodName)
    : (name.method flags bm kv percent).Preserves property := by
  cases name with
  | writeSeq => exact doWrite_preserves preserves true
  | writeRandom => exact doWrite_preserves preserves false
  | readSeq => exact doRead_preserves true false
  | readRandom => exact doRead_preserves false false
  | readMissing => exact doRead_preserves false true
  | deleteSeq => exact doDelete_preserves preserves true
  | deleteRandom => exact doDelete_preserves preserves false
  | readWhileWriting => exact readWhileWriting_preserves preserves
  | readRandomWriteRandom => exact readRandomWriteRandom_preserves preserves percent

/-- Calls through a live handle update its pool and no handle. -/
theorem wrapperKV_preserves {E : Engine} {V : E.View} (laws : E.CmapLaws V) (db : E.Db)
    (path : String) (handles : E.Db → Option String)
    : (wrapperKV E ⟨some db⟩).Preserves
        (fun state => V.handle state = handles ∧ ∃ left, V.Live state db path left) where
  put {state} key value holds := by
    obtain ⟨same, left, live⟩ := holds
    have next : ((wrapperKV E ⟨some db⟩).put key value state).2
        = (E.pmemkvPut (some db) key value state).2 := by
      by_cases status : (E.pmemkvPut (some db) key value state).1 = 0
      · simp [wrapperKV, Harness.put, pmkvPut, status]
      · simp [wrapperKV, Harness.put, pmkvPut, status]
    rw [next]
    cases room : V.hasRoom state db key value with
    | true =>
        obtain ⟨_, updates⟩ := laws.putWithRoom live room
        exact ⟨updates.2.trans same, _, live.of_updates updates⟩
    | false =>
        obtain ⟨_, updates⟩ := laws.putWithoutRoom live room
        exact ⟨updates.2.trans same, _, live.of_updates updates⟩
  remove {state} key holds := by
    obtain ⟨same, left, live⟩ := holds
    obtain ⟨_, updates⟩ := PMKVWrapper.remove_of_live laws live key
    exact ⟨updates.2.trans same, _, live.of_updates updates⟩

-----------------------------------------------------------------------------------------
-- Whole runs
-----------------------------------------------------------------------------------------

section Runs

variable {E : Engine} (remove : String → E.State → E.State) (flags : Flags) (percent : Int)
    (schedules : List (StoreEvent E) → List Action)

/-- The process with `RunBenchmark` as it is, for any `std::remove`. Before each benchmark
`Run` has reset its parameters to the flags; each call is scheduled anew.
-/
def benchOutside : Outside E where
  remove := remove
  runBenchmark history call kv state :=
    kv.bind fun wrapper =>
      (runBenchmark call.numThreads
        (call.method.method flags (.reset flags) (wrapperKV E wrapper) percent)
        (schedules history) state).map Prod.fst

/-- A benchmark that returns has worked through its handle only. -/
theorem benchOutside_laws {V : E.View} (laws : E.CmapLaws V) {path : String}
    (removes : ∀ state, V.handle (remove path state) = V.handle state)
    : (benchOutside remove flags percent schedules).Laws V path where
  remove := removes
  runBenchmark {history call db contents state next} live ran := by
    obtain ⟨⟨_, reports⟩, complete, rfl⟩ := Option.map_eq_some_iff.mp ran
    have preserved := call.method.method_preserves
      (wrapperKV_preserves laws db path (V.handle state)) flags (.reset flags) percent
    obtain ⟨same, left, after⟩ := preserved.run ⟨rfl, contents, live⟩ complete
    exact ⟨same, left, after.2⟩

end Runs

/-- A complete run of one thread with one call; then one of a writer that puts once and of a
reader with one call.
-/
def shortSchedules (history : List (StoreEvent tableEngine)) : List Action :=
  if (calls history).length < 2 then
    [.main, .main, .worker 0, .main] ++ List.replicate 6 (.worker 0) ++ List.replicate 3 .main
  else
    [.main, .main, .main, .worker 0, .worker 1, .main] ++ List.replicate 4 (.worker 0)
      ++ List.replicate 6 (.worker 1) ++ List.replicate 3 (.worker 0) ++ List.replicate 4 .main

end PMKVLab.Bench
