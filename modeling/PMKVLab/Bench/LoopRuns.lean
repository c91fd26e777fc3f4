import PMKVLab.Bench.MethodRuns
import PMKVLab.Library.Interleaving

/-! Runs of the benchmark loops on a store that behaves as a finite map. The keys a thread
uses and what it counts are those of the thread running alone, and the contents left behind
do not depend on the interleaving.
-/

namespace PMKVLab.Bench

open PMKVLab.Library PMKVLab.Store

-----------------------------------------------------------------------------------------
-- One thread alone
-----------------------------------------------------------------------------------------

section Solo

variable {Store : Type} (flags : Flags) (bm : Benchmark) (body : LoopBody Store)
  (cost : Bytes → Nat × Nat)

/-- Drawing a key changes the generator only. -/
theorem nextKey_thread (seq : Bool) (l : LoopState)
    : (nextKey flags bm seq l).2.tid = l.thread.tid
      ∧ (nextKey flags bm seq l).2.stats = l.thread.stats := by
  cases seq <;> exact ⟨rfl, rfl⟩

/-- The locals of thread `tid` after `j` iterations, when each key costs what it did at the
start.
-/
def soloState (tid : Nat) : Nat → LoopState
  | 0 => ⟨body.enter (.make tid), 0, 0, 0, List.replicate bm.keySize.toNat 0⟩
  | j + 1 =>
      let l := soloState tid j
      let (key, thread) := nextKey flags bm body.seq l
      l.finishOp key thread (cost key).1 (cost key).2

/-- The key of iteration `j`. -/
def soloKey (tid j : Nat) : Bytes :=
  (nextKey flags bm body.seq (soloState flags bm body cost tid j)).1

/-- The keys of the first `j` iterations. -/
def soloKeys (tid j : Nat) : List Bytes :=
  (List.range j).map (soloKey flags bm body cost tid)

@[simp] theorem soloState_i (tid j : Nat) : (soloState flags bm body cost tid j).i = j := by
  induction j with
  | zero => rfl
  | succ j ih => exact congrArg (· + 1) ih

theorem soloKeys_succ (tid j : Nat)
    : soloKeys flags bm body cost tid (j + 1)
      = soloKeys flags bm body cost tid j ++ [soloKey flags bm body cost tid j] := by
  simp [soloKeys, List.range_succ]

/-- A thread alone is the same on any store: its keys depend on how the loop starts and on
how it draws them.
-/
theorem soloState_congr {Other : Type} {body : LoopBody Store} {other : LoopBody Other}
    (enter : body.enter = other.enter) (seq : body.seq = other.seq) (tid j : Nat)
    : soloState flags bm body cost tid j = soloState flags bm other cost tid j := by
  induction j with
  | zero => rw [soloState, soloState, enter]
  | succ j ih => rw [soloState, soloState, ih, seq]

theorem soloKeys_congr {Other : Type} {body : LoopBody Store} {other : LoopBody Other}
    (enter : body.enter = other.enter) (seq : body.seq = other.seq) (tid j : Nat)
    : soloKeys flags bm body cost tid j = soloKeys flags bm other cost tid j := by
  refine List.map_congr_left fun k _ => ?_
  rw [soloKey, soloKey, soloState_congr flags bm cost enter seq, seq]

end Solo

-----------------------------------------------------------------------------------------
-- All threads together
-----------------------------------------------------------------------------------------

/-- The loop's call acts on the contents of the store by a commuting effect, and counts
what the effect's cost says. `holds` relates a store to its contents.
-/
structure LoopBody.Acts {Store : Type} (body : LoopBody Store)
    (holds : Store → Contents → Prop) (effect : Bytes → Contents → Contents)
    (cost : Bytes → Contents → Nat × Nat) : Prop where
  commuting : Commuting effect cost
  acts {store next : Store} {contents : Contents} {key : Bytes} {bytes found : Nat}
    : holds store contents → body.operation key store = some (bytes, found, next)
      → cost key contents = (bytes, found) ∧ holds next (effect key contents)

section Runs

variable {Store : Type} {n : Nat} (flags : Flags) (bm : Benchmark) (body : LoopBody Store)
  (holds : Store → Contents → Prop) (effect : Bytes → Contents → Contents)
  (cost : Bytes → Contents → Nat × Nat) (start : Contents)

/-- How many iterations a thread has completed. -/
def progressOf : Phase (forLoop flags bm body) → Nat
  | .waiting => 0
  | .running (now : LoopState) => now.i
  | .finished _ => body.count.toNat

/-- The thread is where it would be if it ran alone from the first contents. -/
def AsSolo (tid : Nat) : Phase (forLoop flags bm body) → Prop
  | .waiting => True
  | .running (now : LoopState) =>
      now = soloState flags bm body (cost · start) tid now.i ∧ now.i ≤ body.count.toNat
  | .finished thread =>
      thread = body.leave (soloState flags bm body (cost · start) tid body.count.toNat)

/-- The operations each thread has performed. -/
def performedKeys (phases : Fin n → Phase (forLoop flags bm body)) (i : Fin n) : List Bytes :=
  soloKeys flags bm body (cost · start) i (progressOf flags bm body (phases i))

/-- Every thread is where it would be alone, and the store holds what all have done. -/
structure LoopInvariant (phases : Fin n → Phase (forLoop flags bm body)) (store : Store)
    : Prop where
  threads : ∀ i : Fin n, AsSolo flags bm body cost start i (phases i)
  contents : holds store
    (perform effect (together (performedKeys flags bm body cost start phases)) start)

variable {flags bm body holds effect cost start}

theorem performedKeys_update (phases : Fin n → Phase (forLoop flags bm body)) (i : Fin n)
    (phase : Phase (forLoop flags bm body))
    : performedKeys flags bm body cost start (Function.update phases i phase)
      = Function.update (performedKeys flags bm body cost start phases) i
          (soloKeys flags bm body (cost · start) i (progressOf flags bm body phase)) := by
  funext j
  by_cases same : j = i
  · subst same
    simp [performedKeys]
  · simp [performedKeys, same]

/-- A thread that changes its phase without performing an operation. -/
theorem LoopInvariant.still {phases : Fin n → Phase (forLoop flags bm body)} {store : Store}
    (inv : LoopInvariant flags bm body holds effect cost start phases store) (i : Fin n)
    {phase : Phase (forLoop flags bm body)}
    (solo : AsSolo flags bm body cost start i phase)
    (same : progressOf flags bm body phase = progressOf flags bm body (phases i))
    : LoopInvariant flags bm body holds effect cost start (Function.update phases i phase)
        store where
  threads := by
    intro j
    by_cases here : j = i
    · subst here
      simpa using solo
    · simpa [here] using inv.threads j
  contents := by
    rw [performedKeys_update, same]
    have unchanged : Function.update (performedKeys flags bm body cost start phases) i
          (performedKeys flags bm body cost start phases i)
        = performedKeys flags bm body cost start phases :=
      Function.update_eq_self i _
    exact (congrArg (fun performed => holds store (perform effect (together performed) start))
      unchanged).mpr inv.contents

/-- What an iteration does, from the loop's step. -/
theorem forLoop_continues {now next : LoopState} {store after : Store} {shared : SharedState}
    (stepped : (forLoop flags bm body).step shared now store = .continues next after)
    : (now.i : Int) < body.count
      ∧ ∃ bytes found,
          body.operation (nextKey flags bm body.seq now).1 store = some (bytes, found, after)
          ∧ next = now.finishOp (nextKey flags bm body.seq now).1
              (nextKey flags bm body.seq now).2 bytes found := by
  simp only [forLoop] at stepped
  split at stepped
  · next more =>
    refine ⟨more, ?_⟩
    split at stepped
    · cases stepped
    · cases called : body.operation (nextKey flags bm body.seq now).1 store with
      | none => simp [called] at stepped
      | some result =>
          obtain ⟨bytes, found, left⟩ := result
          simp only [called, Outcome.continues.injEq] at stepped
          obtain ⟨rfl, rfl⟩ := stepped
          exact ⟨bytes, found, rfl, rfl⟩
  · cases stepped

/-- The loop returns when its count is reached, and leaves the store alone. -/
theorem forLoop_returns {now : LoopState} {thread : ThreadState} {store after : Store}
    {shared : SharedState}
    (stepped : (forLoop flags bm body).step shared now store = .returns thread after)
    : ¬ (now.i : Int) < body.count ∧ thread = body.leave now ∧ after = store := by
  simp only [forLoop] at stepped
  split at stepped
  · split at stepped
    · cases stepped
    · cases called : body.operation (nextKey flags bm body.seq now).1 store with
      | none => simp [called] at stepped
      | some result => simp [called] at stepped
  · next done =>
    cases stepped
    exact ⟨done, rfl, rfl⟩

/-- One iteration of one thread keeps the invariant. Witness: the key is the one the thread
would use alone, its cost is what it was at the start, and its effect is performed last.
-/
theorem LoopInvariant.iterate (acts : body.Acts holds effect cost)
    {phases : Fin n → Phase (forLoop flags bm body)} {store after : Store}
    (inv : LoopInvariant flags bm body holds effect cost start phases store) {i : Fin n}
    {now next : LoopState} (running : phases i = .running now) {shared : SharedState}
    (stepped : (forLoop flags bm body).step shared now store = .continues next after)
    : LoopInvariant flags bm body holds effect cost start
        (Function.update phases i (.running next)) after := by
  obtain ⟨more, bytes, found, called, rfl⟩ := forLoop_continues stepped
  have alone := inv.threads i
  rw [running] at alone
  obtain ⟨solo, bound⟩ := alone
  have key : (nextKey flags bm body.seq now).1
      = soloKey flags bm body (cost · start) i now.i := by
    rw [soloKey, ← solo]
  obtain ⟨counted, left⟩ := acts.acts inv.contents called
  rw [acts.commuting.cost_perform] at counted
  have advanced : now.finishOp (nextKey flags bm body.seq now).1
        (nextKey flags bm body.seq now).2 bytes found
      = soloState flags bm body (cost · start) i (now.i + 1) := by
    rw [soloState, ← solo]
    simp only [counted]
  refine ⟨?_, ?_⟩
  · intro j
    by_cases here : j = i
    · subst here
      rw [Function.update_self]
      refine ⟨?_, ?_⟩
      · exact advanced
      · simp only [LoopState.finishOp]
        omega
    · simpa [here] using inv.threads j
  · rw [performedKeys_update]
    have performed : performedKeys flags bm body cost start phases i
        = soloKeys flags bm body (cost · start) i now.i := by
      rw [performedKeys, running]
      rfl
    have extended : soloKeys flags bm body (cost · start) i (now.i + 1)
        = performedKeys flags bm body cost start phases i
          ++ [(nextKey flags bm body.seq now).1] := by
      rw [soloKeys_succ, performed, key]
    have progressed : progressOf flags bm body
        (.running (now.finishOp (nextKey flags bm body.seq now).1
          (nextKey flags bm body.seq now).2 bytes found))
        = now.i + 1 :=
      rfl
    rw [progressed, extended, acts.commuting.perform_update]
    exact left

/-- The loops keep the invariant. -/
theorem forLoop_keeps (acts : body.Acts holds effect cost)
    : (forLoop flags bm body).Keeps n
        (LoopInvariant flags bm body holds effect cost start) where
  begins {phases store i now} inv waiting entered := by
    simp only [forLoop, allocateKey] at entered
    split at entered
    · cases entered
    · cases Option.some.inj entered
      apply inv.still i
      · exact ⟨rfl, Nat.zero_le _⟩
      · rw [waiting]
        rfl
  continues inv running stepped := inv.iterate acts running stepped
  returns {phases store after i now thread shared} inv running stepped := by
    obtain ⟨done, rfl, rfl⟩ := forLoop_returns stepped
    have alone := inv.threads i
    rw [running] at alone
    obtain ⟨solo, bound⟩ := alone
    have last : LoopState.i now = body.count.toNat := by omega
    apply inv.still i
    · rw [AsSolo, ← last, ← solo]
    · rw [running]
      exact last.symm

/-- Before any thread has begun. -/
theorem LoopInvariant.first {store : Store} (initial : holds store start)
    : LoopInvariant flags bm body holds effect cost start (fun _ : Fin n => .waiting) store := by
  refine ⟨fun _ => trivial, ?_⟩
  have nothing : together (performedKeys flags bm body cost start (fun _ : Fin n => .waiting))
      = [] := by
    simp [together, performedKeys, progressOf, soloKeys]
  rw [nothing]
  exact initial

/-- A finished run leaves the effects of all keys of all threads, and each thread reports
what it would report alone.
-/
theorem forLoop_finished (acts : body.Acts holds effect cost) {store : Store}
    (initial : holds store start) {s : System (forLoop flags bm body) n}
    (reachable : Reachable System.step (System.init (forLoop flags bm body) n store) s)
    (finished : s.Finished)
    : holds s.store
        (perform effect
          (together (fun i : Fin n =>
            soloKeys flags bm body (cost · start) i body.count.toNat)) start)
      ∧ s.reports = (List.finRange n).map (fun i : Fin n =>
          (body.leave
            (soloState flags bm body (cost · start) i body.count.toNat)).stats.report) := by
  have inv := (forLoop_keeps acts).of_reachable (.first initial) reachable
  obtain ⟨threads, returned, reports⟩ := finished.returned (.of_reachable reachable)
  have alone : ∀ i : Fin n, threads i
      = body.leave (soloState flags bm body (cost · start) i body.count.toNat) := by
    intro i
    have solo := inv.threads i
    rw [returned i] at solo
    exact solo
  refine ⟨?_, ?_⟩
  · have performed : performedKeys flags bm body cost start s.phases
        = fun i : Fin n => soloKeys flags bm body (cost · start) i body.count.toNat := by
      funext i
      rw [performedKeys, returned i]
      rfl
    rw [← performed]
    exact inv.contents
  · rw [reports]
    simp only [alone]

/-- The number of iterations left ranks a loop. -/
theorem forLoop_ranked (flags : Flags) (bm : Benchmark) (body : LoopBody Store)
    : (forLoop flags bm body).Ranked (fun l : LoopState => body.count.toNat - l.i)
        (fun _ => body.count.toNat) where
  begins _ := Nat.sub_le _ _
  continues {now next store after shared} stepped := by
    obtain ⟨more, bytes, found, _, rfl⟩ := forLoop_continues stepped
    simp only [LoopState.finishOp]
    omega

/-- Every run of a loop completes when keys can be allocated, the remainder by `FLAGS_num`
does not trap and no call ends the process.
-/
theorem forLoop_completes (acts : body.Acts holds effect cost) (size : 0 ≤ bm.keySize)
    (divides : body.seq = true ∨ toUInt32 flags.num ≠ 0)
    (total : ∀ key store contents, holds store contents
      → (body.operation key store).isSome = true)
    {store : Store} (initial : holds store start)
    : (forLoop flags bm body).Completes n store := by
  have safe : (forLoop flags bm body).Safe n
      (LoopInvariant flags bm body holds effect cost start) := by
    refine ⟨forLoop_keeps acts, ?_, ?_⟩
    · intro i
      simp [forLoop, allocateKey, Int.not_lt.mpr size]
    · intro phases store i now inv running shared stopped
      obtain ⟨result, called⟩ := Option.isSome_iff_exists.mp
        (total (nextKey flags bm body.seq now).1 store _ inv.contents)
      simp only [forLoop] at stopped
      split at stopped
      · split at stopped
        · next traps =>
          rcases divides with seq | nonzero
          · simp [seq] at traps
          · exact nonzero traps.2
        · simp [called] at stopped
      · cases stopped
  exact safe.completes (forLoop_ranked flags bm body) (.first initial)

end Runs

-----------------------------------------------------------------------------------------
-- The three loops on a finite-map store
-----------------------------------------------------------------------------------------

/-- The calls behave as those of a finite map on which no put fails; `holds` relates a
store to its contents.
-/
structure KV.MapLaws {Store : Type} (kv : KV Store) (fits : Nat → Bool)
    (holds : Store → Contents → Prop) : Prop where
  get {store : Store} {contents : Contents} (key : Bytes)
    : holds store contents → kv.get key store = (mapKV fits).get key contents
  put {store : Store} {contents : Contents} (key value : Bytes)
    : holds store contents
      → (kv.put key value store).1 = .ok .ok
        ∧ holds (kv.put key value store).2 (contents.insert key value)
  remove {store : Store} {contents : Contents} (key : Bytes)
    : holds store contents → holds (kv.remove key store).2 (contents.erase key)

/-- A finite map is its own contents. -/
theorem mapKV_mapLaws (fits : Nat → Bool) : (mapKV fits).MapLaws fits Eq where
  get key same := by rw [same]
  put key value same := by
    subst same
    exact ⟨rfl, rfl⟩
  remove key same := by
    subst same
    rfl

/-- The wrapper on a live handle behaves as a finite map while the pool has room. -/
theorem wrapperKV_mapLaws {E : Engine} {V : E.View} (laws : E.CmapLaws V)
    (room : V.AlwaysRoom) (db : E.Db) (path : String)
    : (wrapperKV E ⟨some db⟩).MapLaws (V.fits · maxValLen)
        (fun state contents => V.Live state db path contents) where
  get key live := PMKVWrapper.get_of_live laws live key []
  put key value live := by
    obtain ⟨status, updates⟩ := Harness.put_of_live laws live .bench (room _ db key value)
    exact ⟨status, live.of_updates updates⟩
  remove key live := live.of_updates (PMKVWrapper.remove_of_live laws live key).2

section MapStore

variable {Store : Type} {kv : KV Store} {fits : Nat → Bool} {holds : Store → Contents → Prop}
  (flags : Flags) (bm : Benchmark)

/-- The value every write stores. -/
def writtenValue : Bytes := List.replicate bm.valueSize.toNat 88

/-- Writing one value under many keys commutes. -/
theorem writeLoop_acts (laws : kv.MapLaws fits holds) (seq : Bool)
    : (writeLoop flags bm kv seq).Acts holds
        (fun key contents => contents.insert key (writtenValue bm))
        (fun key _ => (bm.valueSize.toNat + key.length, 0)) where
  commuting := by
    refine ⟨?_, fun _ _ _ => rfl⟩
    intro first second contents
    by_cases same : first = second
    · rw [same]
    · exact Finmap.insert_insert_of_ne contents (Ne.symm same)
  acts {store next contents key bytes found} live called := by
    obtain ⟨status, stored⟩ := laws.put key (writtenValue bm) live
    simp only [writeLoop] at called
    split at called
    · cases called
    · have outcome : kv.put key (List.replicate bm.valueSize.toNat 88) store
          = (.ok .ok, (kv.put key (writtenValue bm) store).2) :=
        Prod.ext status rfl
      rw [outcome] at called
      cases called
      exact ⟨rfl, stored⟩

/-- Reads leave the contents alone, so they commute. -/
theorem readLoop_acts (laws : kv.MapLaws fits holds) (seq missing : Bool)
    : (readLoop bm kv seq missing).Acts holds (fun _ contents => contents)
        (fun key contents =>
          (((mapKV fits).get key contents).2.length + key.length,
            if ((mapKV fits).get key contents).1 = .ok then 1 else 0)) where
  commuting := ⟨fun _ _ _ => rfl, fun _ _ _ => rfl⟩
  acts {store next contents key bytes found} live called := by
    simp only [readLoop, laws.get key live] at called
    cases called
    exact ⟨rfl, live⟩

/-- Erasures commute. -/
theorem deleteLoop_acts (laws : kv.MapLaws fits holds) (seq : Bool)
    : (deleteLoop bm kv seq).Acts holds (fun key contents => contents.erase key)
        (fun _ _ => (0, 0)) where
  commuting := by
    refine ⟨?_, fun _ _ _ => rfl⟩
    intro first second contents
    exact Finmap.erase_erase
  acts {store next contents key bytes found} live called := by
    cases called
    exact ⟨rfl, laws.remove key live⟩

/-- A write ends the process exactly when the value size is negative. -/
theorem writeLoop_isSome_iff (laws : kv.MapLaws fits holds) (seq : Bool) (key : Bytes)
    {store : Store} {contents : Contents} (live : holds store contents)
    : ((writeLoop flags bm kv seq).operation key store).isSome = true ↔ 0 ≤ bm.valueSize := by
  obtain ⟨status, _⟩ := laws.put key (writtenValue bm) live
  have outcome : kv.put key (List.replicate bm.valueSize.toNat 88) store
      = (.ok .ok, (kv.put key (writtenValue bm) store).2) :=
    Prod.ext status rfl
  simp only [writeLoop]
  split
  · next negative => simp [Int.not_le.mpr negative]
  · next nonnegative =>
    rw [outcome]
    simp [Int.not_lt.mp nonnegative]

end MapStore

end PMKVLab.Bench
