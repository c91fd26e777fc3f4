import PMKVLab.Bench.ReadWriteMix
import PMKVLab.Bench.StoreLifecycle

/-! The undefined expressions of the loops: `rand.Next() % FLAGS_num` with a zero flag, and
`i + thread->tid * num_` outside the range of an `int`. Which flags keep every execution of
a benchmark away from them.
-/

namespace PMKVLab.Bench

open PMKVLab.Library PMKVLab.Store

-----------------------------------------------------------------------------------------
-- Reaching a method
-----------------------------------------------------------------------------------------

section Reaching

variable {Store : Type} {M : Method Store} {n : Nat} {store : Store}

/-- The main thread has started `k` threads, and none of them has run. -/
def System.spawnedTo (M : Method Store) (n : Nat) (store : Store) (k : Nat) : System M n :=
  { System.init M n store with
    main := .spawning k
    workers := fun j => if j < k then .initializing else .notStarted }

theorem spawnedTo_reachable {k : Nat} (atMost : k ≤ n)
    : Reachable System.step (System.init M n store) (.spawnedTo M n store k) := by
  induction k with
  | zero => exact .refl _ _
  | succ k ih =>
      have less : k < n := atMost
      refine (ih (Nat.le_of_lt less)).next (?_ : System.step .main _ = _)
      have spawned : (System.spawnedTo M n store k).spawn ⟨k, less⟩
          = .spawnedTo M n store (k + 1) := by
        have workers : Function.update (System.spawnedTo M n store k).workers ⟨k, less⟩
              (.initializing : Worker M)
            = (System.spawnedTo M n store (k + 1)).workers := by
          funext j
          by_cases same : j = ⟨k, less⟩
          · subst same
            simp [System.spawnedTo]
          · have other : (j : Nat) ≠ k := fun equal => same (Fin.ext equal)
            rw [Function.update_of_ne same]
            have iff : (j : Nat) < k ↔ (j : Nat) < k + 1 := by omega
            simp only [System.spawnedTo, iff]
        simp only [System.spawn, System.setWorker, workers]
        rfl
      rw [← spawned]
      simp [System.step, System.mainStep, System.spawnedTo, System.init, less]

/-- The first `k` threads wait for the start, which nobody has given yet. -/
structure Gathered (store : Store) (k : Nat) (s : System M n) : Prop where
  shared : s.shared = ⟨n, k, 0, false⟩
  main : s.main = .spawning n
  store : s.store = store
  alive : s.aborted = false
  waiting : ∀ j : Fin n, j < k → s.workers j = .asleep ∨ s.workers j = .awake
  initializing : ∀ j : Fin n, k ≤ j → s.workers j = .initializing

/-- A broadcast leaves waiting threads waiting. -/
theorem signalIf_workers (s : System M n) (condition : Prop) [Decidable condition] (j : Fin n)
    : (s.signalIf condition).workers j = s.workers j
      ∨ (s.signalIf condition).workers j = (s.workers j).wake := by
  unfold System.signalIf
  split
  · exact .inr rfl
  · exact .inl rfl

/-- The next thread enters the barrier and goes to sleep; the last one wakes the others. -/
theorem Gathered.enterBarrier {k : Nat} {s : System M n} (gathered : Gathered store k s)
    (less : k < n)
    : Gathered store (k + 1) (s.enterBarrier ⟨k, less⟩) := by
  obtain ⟨shared, main, kept, alive, waiting, initializing⟩ := gathered
  have entered : s.enterBarrier ⟨k, less⟩
      = ((s.setShared ⟨n, k + 1, 0, false⟩).signalIf (k + 1 ≥ n)).setWorker ⟨k, less⟩ .asleep := by
    simp [System.enterBarrier, System.awaitStart_eq, shared]
  rw [entered]
  refine ⟨System.signalIf_shared _ _, ?_, (signalIf_store _ _).trans kept,
    (System.signalIf_aborted _ _).trans alive, ?_, ?_⟩
  · refine (System.signalIf_main _ _).trans ?_
    simp [System.setShared, main, MainPhase.wake]
  · intro j early
    by_cases same : j = ⟨k, less⟩
    · subst same
      exact .inl (Function.update_self _ _ _)
    · have before : j < k := by
        have other : (j : Nat) ≠ k := fun equal => same (Fin.ext equal)
        omega
      simp only [System.setWorker, Function.update_of_ne same]
      rcases signalIf_workers (s.setShared ⟨n, k + 1, 0, false⟩) (k + 1 ≥ n) j with still | woken
      · rw [still]
        exact waiting j before
      · rw [woken]
        rcases waiting j before with asleep | awake
        · exact .inr (congrArg Worker.wake asleep)
        · exact .inr (congrArg Worker.wake awake)
  · intro j late
    have same : j ≠ ⟨k, less⟩ := by
      rintro rfl
      exact absurd late (Nat.not_succ_le_self k)
    have here := initializing j (Nat.le_of_succ_le late)
    simp only [System.setWorker, Function.update_of_ne same]
    rcases signalIf_workers (s.setShared ⟨n, k + 1, 0, false⟩) (k + 1 ≥ n) j with still | woken
    · exact still.trans here
    · exact woken.trans (congrArg Worker.wake here)

theorem gathered_reachable {k : Nat} (atMost : k ≤ n)
    : ∃ s : System M n, Reachable System.step (System.init M n store) s
      ∧ Gathered store k s := by
  induction k with
  | zero =>
      refine ⟨_, spawnedTo_reachable (Nat.le_refl n), rfl, rfl, rfl, rfl, ?_, ?_⟩
      · exact fun _ early => absurd early (Nat.not_lt_zero _)
      · exact fun j _ => if_pos j.isLt
  | succ k ih =>
      have less : k < n := atMost
      obtain ⟨s, reachable, gathered⟩ := ih (Nat.le_of_lt less)
      refine ⟨_, reachable.next (?_ : System.step (.worker k) s = _), gathered.enterBarrier less⟩
      have here := gathered.initializing ⟨k, less⟩ (Nat.le_refl k)
      simp [System.step, gathered.alive, less, System.workerStep, here]

/-- With the start given, an awake thread passes the barrier and enters its method. -/
theorem passes_barrier {s : System M n} {i : Fin n} (alive : s.aborted = false)
    (start : s.shared.start = true) (awake : s.workers i = .awake) {now : M.Local}
    (entered : M.init (.make i) = some now)
    : s.step (.worker i) = some (s.setWorker i .released)
      ∧ (s.setWorker i .released).step (.worker i)
        = some { s.setWorker i (.running now) with events := s.events ++ [.began i] } := by
  constructor
  · simp [System.step, alive, System.workerStep, awake, System.awaitStart, start]
  · simp [System.step, alive, System.workerStep, System.setWorker, System.beginMethod, entered]

/-- Thread `i` is at a point of its method while no thread has ended. -/
structure Inside (store : Store) (i : Fin n) (now : M.Local) (s : System M n) : Prop where
  worker : s.workers i = .running now
  store : s.store = store
  shared : s.shared = ⟨n, n, 0, true⟩
  alive : s.aborted = false

/-- Every thread can be the first to enter its method. -/
theorem inside_reachable (i : Fin n) {now : M.Local} (entered : M.init (.make i) = some now)
    (store : Store)
    : ∃ s : System M n, Reachable System.step (System.init M n store) s
      ∧ Inside store i now s := by
  obtain ⟨s, reachable, gathered⟩ : ∃ s : System M n,
      Reachable System.step (System.init M n store) s ∧ Gathered store n s :=
    gathered_reachable (Nat.le_refl n)
  have positive : 0 < n := Nat.zero_lt_of_lt i.isLt
  -- the main thread gives the start and wakes everyone
  let started := { (s.setShared ⟨n, n, 0, true⟩).signalAll with main := .asleepDone }
  have begun : s.step .main = some started := by
    simp [System.step, gathered.alive, System.mainStep, gathered.main, System.awaitInitialized,
      gathered.shared, System.awaitDone, System.signalAll, System.setShared, positive, started]
  have awake : started.workers i = .awake := by
    rcases gathered.waiting i i.isLt with asleep | awake
    · exact congrArg Worker.wake asleep
    · exact congrArg Worker.wake awake
  have alive : started.aborted = false := gathered.alive
  obtain ⟨passed, running⟩ := passes_barrier alive rfl awake entered
  refine ⟨_, ((reachable.next begun).next passed).next running, ?_⟩
  exact ⟨Function.update_self _ _ _, gathered.store, rfl, gathered.alive⟩

/-- A thread goes on in its method while the others wait. -/
theorem Inside.next {i : Fin n} {now next : M.Local} {after : Store} {s : System M n}
    (inside : Inside store i now s)
    (stepped : M.step ⟨n, n, 0, true⟩ now store = .continues next after)
    : ∃ s', s.step (.worker i) = some s' ∧ Inside after i next s' := by
  obtain ⟨worker, rfl, shared, alive⟩ := inside
  rw [← shared] at stepped
  refine ⟨{ s.setWorker i (.running next) with store := after }, ?_, ?_⟩
  · simp [System.step, alive, System.workerStep, worker, System.advance, stepped]
  · exact ⟨Function.update_self _ _ _, rfl, shared, alive⟩

end Reaching

-----------------------------------------------------------------------------------------
-- Undefined expressions
-----------------------------------------------------------------------------------------

/-- The values of an `int`. -/
def InInt (value : Int) : Prop := -2 ^ 31 ≤ value ∧ value < 2 ^ 31

/-- The key expression of a loop is undefined: `i + thread->tid * num_` overflows, or the
unsigned remainder is by zero.
-/
def UndefinedIndex (flags : Flags) (bm : Benchmark) (seq : Bool) (tid i : Nat) : Prop :=
  if seq then ¬ InInt (tid * bm.num) ∨ ¬ InInt (i + tid * bm.num)
  else toUInt32 flags.num = 0

/-- A method with the local states whose next step evaluates an undefined expression. -/
structure Guarded (Store : Type) where
  method : Method Store
  hazard : method.Local → Prop

/-- No execution in `n` threads evaluates an undefined expression. -/
def Guarded.Safe {Store : Type} (guarded : Guarded Store) (n : Nat) (store : Store) : Prop :=
  ∀ s, Reachable System.step (System.init guarded.method n store) s
    → ∀ i now, s.workers i = .running now → ¬ guarded.hazard now

section Guards

variable {Store : Type} (flags : Flags) (bm : Benchmark) (kv : KV Store) (percent : Int)

/-- The loops evaluate the expression at the beginning of an iteration. -/
def guardedLoop (body : LoopBody Store) : Guarded Store where
  method := forLoop flags bm body
  hazard (l : LoopState) :=
    (l.i : Int) < body.count ∧ UndefinedIndex flags bm body.seq l.thread.tid l.i

/-- The writer draws its key between its check and its put. -/
def guardedReadWhileWriting : Guarded Store where
  method := readWhileWriting flags bm kv
  hazard
    | .inl (w : WriterState) => w.point = .put ∧ toUInt32 flags.num = 0
    | .inr (l : LoopState) => (guardedLoop flags bm (readLoop bm kv false false)).hazard l

def guardedReadRandomWriteRandom : Guarded Store where
  method := readRandomWriteRandom flags bm kv percent
  hazard (m : MixState) := m.ops < readwrites flags ∧ toUInt32 flags.num = 0

/-- The method that `Run` points at, with its undefined expressions. -/
def MethodName.guarded : MethodName → Guarded Store
  | .writeSeq => guardedLoop flags bm (writeLoop flags bm kv true)
  | .writeRandom => guardedLoop flags bm (writeLoop flags bm kv false)
  | .readSeq => guardedLoop flags bm (readLoop bm kv true false)
  | .readRandom => guardedLoop flags bm (readLoop bm kv false false)
  | .readMissing => guardedLoop flags bm (readLoop bm kv false true)
  | .deleteSeq => guardedLoop flags bm (deleteLoop bm kv true)
  | .deleteRandom => guardedLoop flags bm (deleteLoop bm kv false)
  | .readWhileWriting => guardedReadWhileWriting flags bm kv
  | .readRandomWriteRandom => guardedReadRandomWriteRandom flags bm kv percent

end Guards

/-- The flags with which no execution of a method is undefined. -/
def MethodName.SafeFlags (flags : Flags) : MethodName → Prop
  | .writeSeq | .deleteSeq => flags.threads * flags.num ≤ 2 ^ 31
  | .readSeq =>
      (Benchmark.reset flags).reads ≤ 0 ∨ flags.threads = 0
        ∨ (Benchmark.reset flags).reads - 1 + (flags.threads - 1) * flags.num < 2 ^ 31
  | .writeRandom | .deleteRandom => True
  | .readRandom | .readMissing =>
      flags.num ≠ 0 ∨ (Benchmark.reset flags).reads ≤ 0 ∨ flags.threads = 0
  | .readWhileWriting => flags.num ≠ 0 ∨ flags.threads = 0
  | .readRandomWriteRandom => flags.num ≠ 0 ∨ readwrites flags ≤ 0 ∨ flags.threads = 0

-----------------------------------------------------------------------------------------
-- The loops
-----------------------------------------------------------------------------------------

section Loops

variable {Store : Type} {flags : Flags} {bm : Benchmark} {body : LoopBody Store} {n : Nat}

/-- A loop never changes its thread's index. -/
theorem forLoop_tid (enter : ∀ thread, (body.enter thread).tid = thread.tid) {store : Store}
    {s : System (forLoop flags bm body) n}
    (reachable : Reachable System.step (System.init (forLoop flags bm body) n store) s)
    {i : Fin n} {l : LoopState} (running : s.workers i = .running l)
    : l.thread.tid = i := by
  let numbered (tid : Nat) (phase : Phase (forLoop flags bm body)) : Prop :=
    ∀ l : LoopState, phase = .running l → l.thread.tid = tid
  have keeps : (forLoop flags bm body).Keeps n
      (fun phases _ => ∀ i : Fin n, numbered i (phases i)) := by
    apply Method.keeps_each
    · intro i now entered l here
      cases here
      obtain ⟨key, _, rfl⟩ := Option.map_eq_some_iff.mp entered
      exact enter _
    · intro i now next store after shared before stepped l here
      cases here
      obtain ⟨_, bytes, found, _, rfl⟩ := forLoop_continues stepped
      exact (nextKey_thread flags bm body.seq now).1.trans (before now rfl)
    · intro i now thread store after shared before stepped l here
      cases here
  exact keeps.of_reachable (fun _ _ waiting => nomatch waiting) reachable i l
    (phases_of_worker running)

/-- A loop is safe when its expression is defined in every iteration of every thread. -/
theorem guardedLoop_safe (enter : ∀ thread, (body.enter thread).tid = thread.tid)
    (defined : ∀ tid i : Nat, tid < n → (i : Int) < body.count
      → ¬ UndefinedIndex flags bm body.seq tid i)
    (store : Store)
    : (guardedLoop flags bm body).Safe n store := by
  rintro s reachable i l running ⟨more, undefined⟩
  have tid : l.thread.tid = i := forLoop_tid enter reachable running
  rw [tid] at undefined
  exact defined i l.i i.isLt more undefined

theorem allocateKey_of_nonneg {keySize : Int} (size : 0 ≤ keySize)
    : allocateKey keySize = some (List.replicate keySize.toNat 0) :=
  if_neg (Int.not_lt.mpr size)

/-- A thread of a sequential loop can make its first `k` iterations alone; every thread can
get to its first iteration.
-/
theorem iterations_reachable (flags : Flags)
    (enter : ∀ thread, (body.enter thread).tid = thread.tid)
    (size : 0 ≤ bm.keySize) (total : ∀ key store, (body.operation key store).isSome = true)
    (tid : Fin n) (store : Store) {k : Nat} (atMost : k ≤ body.count)
    (early : body.seq = true ∨ k = 0)
    : ∃ (s : System (forLoop flags bm body) n) (l : LoopState) (after : Store),
        Reachable System.step (System.init (forLoop flags bm body) n store) s
        ∧ Inside after tid l s ∧ l.i = k ∧ l.thread.tid = tid := by
  induction k with
  | zero =>
      have entered : (forLoop flags bm body).init (.make tid)
          = some ⟨body.enter (.make tid), 0, 0, 0, List.replicate bm.keySize.toNat 0⟩ := by
        simp [forLoop, allocateKey_of_nonneg size]
      obtain ⟨s, reachable, inside⟩ := inside_reachable tid entered store
      exact ⟨s, _, store, reachable, inside, rfl, enter _⟩
  | succ k ih =>
      have seq : body.seq = true := early.resolve_right (Nat.succ_ne_zero k)
      obtain ⟨s, l, after, reachable, inside, count, index⟩ := ih (by omega) (.inl seq)
      obtain ⟨⟨bytes, found, next⟩, called⟩ := Option.isSome_iff_exists.mp
        (total (nextKey flags bm body.seq l).1 after)
      have stepped : (forLoop flags bm body).step ⟨n, n, 0, true⟩ l after
          = .continues (l.finishOp (nextKey flags bm body.seq l).1
              (nextKey flags bm body.seq l).2 bytes found) next := by
        have more : (l.i : Int) < body.count := by omega
        rw [seq] at called ⊢
        simp [forLoop, more, seq, called]
      obtain ⟨s', taken, further⟩ := inside.next stepped
      refine ⟨s', _, next, reachable.next taken, further, congrArg (· + 1) count, ?_⟩
      exact (nextKey_thread flags bm body.seq l).1.trans index

/-- An undefined iteration that a thread can get to. -/
theorem guardedLoop_unsafe (enter : ∀ thread, (body.enter thread).tid = thread.tid)
    (size : 0 ≤ bm.keySize) (total : ∀ key store, (body.operation key store).isSome = true)
    {tid k : Nat} (less : tid < n) (more : (k : Int) < body.count)
    (undefined : UndefinedIndex flags bm body.seq tid k) (early : body.seq = true ∨ k = 0)
    (store : Store)
    : ¬ (guardedLoop flags bm body).Safe n store := by
  intro safe
  obtain ⟨s, l, after, reachable, inside, count, index⟩ :=
    iterations_reachable flags enter size total ⟨tid, less⟩ store (Int.le_of_lt more) early
  refine safe s reachable ⟨tid, less⟩ l inside.worker ⟨?_, ?_⟩
  · rw [count]
    exact more
  · rw [count, index]
    exact undefined

/-- The largest index of a sequential loop is that of the last iteration of the last thread. -/
theorem sequential_safe (enter : ∀ thread, (body.enter thread).tid = thread.tid)
    (seq : body.seq = true) (nonneg : 0 ≤ bm.num)
    (bound : body.count ≤ 0 ∨ n = 0 ∨ body.count - 1 + ((n : Int) - 1) * bm.num < 2 ^ 31)
    (store : Store)
    : (guardedLoop flags bm body).Safe n store := by
  refine guardedLoop_safe enter (fun tid i less more => ?_) store
  have strides : (tid : Int) * bm.num ≤ ((n : Int) - 1) * bm.num :=
    Int.mul_le_mul_of_nonneg_right (by omega) nonneg
  have positive : 0 ≤ (tid : Int) * bm.num := Int.mul_nonneg (Int.natCast_nonneg tid) nonneg
  have bound : body.count - 1 + ((n : Int) - 1) * bm.num < 2 ^ 31 := by
    rcases bound with none | none | bound
    · omega
    · omega
    · exact bound
  simp only [UndefinedIndex, seq, if_true, InInt]
  omega

theorem sequential_bound (enter : ∀ thread, (body.enter thread).tid = thread.tid)
    (size : 0 ≤ bm.keySize) (total : ∀ key store, (body.operation key store).isSome = true)
    (seq : body.seq = true) {store : Store} (safe : (guardedLoop flags bm body).Safe n store)
    : body.count ≤ 0 ∨ n = 0 ∨ body.count - 1 + ((n : Int) - 1) * bm.num < 2 ^ 31 := by
  by_contra exceeded
  have some : 0 < body.count ∧ 0 < n := by omega
  have last : ((n - 1 : Nat) : Int) = n - 1 := by omega
  have final : ((body.count.toNat - 1 : Nat) : Int) = body.count - 1 := by omega
  have more : ((body.count.toNat - 1 : Nat) : Int) < body.count := by omega
  refine guardedLoop_unsafe enter size total (Nat.sub_one_lt_of_lt some.2) more ?_
    (.inl seq) store safe
  simp only [UndefinedIndex, seq, if_true, InInt, last, final]
  omega

theorem random_safe (enter : ∀ thread, (body.enter thread).tid = thread.tid)
    (seq : body.seq = false) (bound : toUInt32 flags.num ≠ 0 ∨ body.count ≤ 0 ∨ n = 0)
    (store : Store)
    : (guardedLoop flags bm body).Safe n store := by
  refine guardedLoop_safe enter (fun tid i less more => ?_) store
  simp only [UndefinedIndex, seq, Bool.false_eq_true, if_false]
  omega

theorem random_bound (enter : ∀ thread, (body.enter thread).tid = thread.tid)
    (size : 0 ≤ bm.keySize) (total : ∀ key store, (body.operation key store).isSome = true)
    (seq : body.seq = false) {store : Store} (safe : (guardedLoop flags bm body).Safe n store)
    : toUInt32 flags.num ≠ 0 ∨ body.count ≤ 0 ∨ n = 0 := by
  by_contra reached
  have some : toUInt32 flags.num = 0 ∧ 0 < body.count ∧ 0 < n := by omega
  refine guardedLoop_unsafe enter size total some.2.2 some.2.1 ?_ (.inr rfl) store safe
  simp only [UndefinedIndex, seq, Bool.false_eq_true, if_false]
  exact some.1

/-- A loop as a function of the store it runs on: its expression and its number of
iterations do not depend on the store, and on some store no call ends the process.
-/
structure Family (count : Int) (seq : Bool) (body : (Store : Type) → KV Store → LoopBody Store)
    : Prop where
  enter : ∀ Store kv thread, ((body Store kv).enter thread).tid = thread.tid
  count : ∀ Store kv, (body Store kv).count = count
  seq : ∀ Store kv, (body Store kv).seq = seq
  total : ∀ key store, ((body Contents (mapKV fun _ => true)).operation key store).isSome = true

theorem Family.sequential_iff {count : Int}
    {body : (Store : Type) → KV Store → LoopBody Store} (family : Family count true body)
    (size : 0 ≤ bm.keySize) (nonneg : 0 ≤ bm.num)
    : (∀ (Store : Type) (kv : KV Store) (store : Store),
        (guardedLoop flags bm (body Store kv)).Safe n store)
      ↔ count ≤ 0 ∨ n = 0 ∨ count - 1 + ((n : Int) - 1) * bm.num < 2 ^ 31 := by
  constructor
  · intro safe
    have bound := sequential_bound (family.enter _ _) size family.total (family.seq _ _)
      (safe Contents (mapKV fun _ => true) ∅)
    rwa [family.count] at bound
  · intro bound Store kv store
    refine sequential_safe (family.enter _ _) (family.seq _ _) nonneg ?_ store
    rwa [family.count]

theorem Family.random_iff {count : Int}
    {body : (Store : Type) → KV Store → LoopBody Store} (family : Family count false body)
    (size : 0 ≤ bm.keySize)
    : (∀ (Store : Type) (kv : KV Store) (store : Store),
        (guardedLoop flags bm (body Store kv)).Safe n store)
      ↔ toUInt32 flags.num ≠ 0 ∨ count ≤ 0 ∨ n = 0 := by
  constructor
  · intro safe
    have bound := random_bound (family.enter _ _) size family.total (family.seq _ _)
      (safe Contents (mapKV fun _ => true) ∅)
    rwa [family.count] at bound
  · intro bound Store kv store
    refine random_safe (family.enter _ _) (family.seq _ _) ?_ store
    rwa [family.count]

theorem writeLoop_family (flags : Flags) (bm : Benchmark) (nonneg : 0 ≤ bm.valueSize)
    (seq : Bool)
    : Family bm.num seq (fun _ kv => writeLoop flags bm kv seq) where
  enter Store kv thread := by
    simp only [writeLoop]
    split <;> rfl
  count _ _ := rfl
  seq _ _ := rfl
  total key store := by simp [writeLoop, mapKV, Int.not_lt.mpr nonneg]

theorem readLoop_family (bm : Benchmark) (seq missing : Bool)
    : Family bm.reads seq (fun _ kv => readLoop bm kv seq missing) :=
  ⟨fun _ _ _ => rfl, fun _ _ => rfl, fun _ _ => rfl, fun _ _ => rfl⟩

theorem deleteLoop_family (bm : Benchmark) (seq : Bool)
    : Family bm.num seq (fun _ kv => deleteLoop bm kv seq) :=
  ⟨fun _ _ _ => rfl, fun _ _ => rfl, fun _ _ => rfl, fun _ _ => rfl⟩

end Loops

-----------------------------------------------------------------------------------------
-- The other two methods
-----------------------------------------------------------------------------------------

section Others

variable {Store : Type} {flags : Flags} {bm : Benchmark} {kv : KV Store} {percent : Int}
  {n : Nat}

/-- The writer begins at its check. -/
theorem writer_begins {i : Nat} {w : WriterState}
    (entered : (readWhileWriting flags bm kv).init (.make i) = some (.inl w))
    : w.point = .check := by
  simp only [readWhileWriting] at entered
  split at entered
  · obtain ⟨l, _, reader⟩ := Option.map_eq_some_iff.mp entered
    cases reader
  · obtain ⟨w', started, same⟩ := Option.map_eq_some_iff.mp entered
    cases same
    obtain ⟨key, _, rfl⟩ := Option.map_eq_some_iff.mp started
    rfl

/-- Without readers the writer's first check leaves its loop: at most one thread has counted
itself.
-/
theorem writer_alone {store : Store} {s : System (readWhileWriting flags bm kv) 1}
    (reachable : Reachable System.step
      (System.init (readWhileWriting flags bm kv) 1 store) s)
    {i : Fin 1} {w : WriterState} (running : s.phases i = .running (.inl w))
    : w.point = .check := by
  suffices both : Coherent s
      ∧ ∀ (i : Fin 1) (w : WriterState), s.phases i = .running (.inl w) → w.point = .check from
    both.2 i w running
  apply reachable.invariant (fun s : System (readWhileWriting flags bm kv) 1 => Coherent s
    ∧ ∀ (i : Fin 1) (w : WriterState), s.phases i = .running (.inl w) → w.point = .check)
  · exact ⟨⟨.init _ _ store, .init _ _ store⟩, fun _ _ waiting => nomatch waiting⟩
  · intro action before after inv taken
    obtain ⟨coherent, checks⟩ := inv
    have transition := (System.step_transition taken).2
    refine ⟨coherent.preserved transition, fun i w running => ?_⟩
    cases transition.methodStep coherent.counters with
    | protocol phases _ => exact checks i w (phases ▸ running)
    | begins j now _ entered phases _ =>
        rw [phases, Subsingleton.elim j i, Function.update_self] at running
        cases running
        exact writer_begins entered
    | continues j now next here stepped phases =>
        rw [phases, Subsingleton.elim j i, Function.update_self] at running
        cases running
        cases now with
        | inl w' =>
            obtain ⟨w'', moved, same⟩ := Outcome.map_eq_continues stepped
            have counted : before.shared.numInitialized ≤ 1 :=
              coherent.counters.initialized ▸ reached_le 2 before.stages
            simp only [bgWriter, checks j w' here] at moved
            rw [if_pos (by omega)] at moved
            cases moved
        | inr l =>
            obtain ⟨l', _, same⟩ := Outcome.map_eq_continues stepped
            cases same
    | returns j now thread _ _ phases =>
        rw [phases, Subsingleton.elim j i, Function.update_self] at running
        cases running

theorem readWhileWriting_safe (bound : toUInt32 flags.num ≠ 0 ∨ n = 0) (store : Store)
    : (guardedReadWhileWriting flags bm kv).Safe (n + 1) store := by
  intro (s : System (readWhileWriting flags bm kv) (n + 1)) reachable i now running hazard
  rcases bound with nonzero | rfl
  · cases now with
    | inl w => exact nonzero hazard.2
    | inr l => exact nonzero hazard.2
  · cases now with
    | inl w =>
        have check := writer_alone reachable (phases_of_worker running)
        have put : w.point = .put := hazard.1
        cases check.symm.trans put
    | inr l =>
        have here : s.phases i = .running (.inr l) := phases_of_worker running
        have counts := (WriterLast.of_reachable reachable).counts i
        rw [here] at counts
        have reader : 0 < (i : Nat) := counts.1
        omega

theorem readWhileWriting_bound (size : 0 ≤ bm.keySize) {store : Store}
    (safe : (guardedReadWhileWriting flags bm kv).Safe (n + 1) store)
    : toUInt32 flags.num ≠ 0 ∨ n = 0 := by
  by_contra reached
  obtain ⟨zero, readers⟩ : toUInt32 flags.num = 0 ∧ 0 < n := by omega
  let w : WriterState := ⟨.make 0, .make flags.valueSize, 0, List.replicate bm.keySize.toNat 0, 0,
    .check⟩
  have entered : (readWhileWriting flags bm kv).init (.make (0 : Fin (n + 1)))
      = some (.inl w) := by
    simp [readWhileWriting, ThreadState.make, bgWriter, allocateKey_of_nonneg size, w]
  obtain ⟨s, reachable, inside⟩ := inside_reachable 0 entered store
  -- the readers have counted themselves, so the check goes on to the put
  have stepped : (readWhileWriting flags bm kv).step ⟨n + 1, n + 1, 0, true⟩ (.inl w) store
      = .continues (.inl { w with point := .put }) store := by
    have stays : ¬ 0 + 1 ≥ n + 1 := by omega
    simp only [readWhileWriting, bgWriter, w, stays, if_false]
    rfl
  obtain ⟨s', taken, further⟩ := inside.next stepped
  exact safe s' (reachable.next taken) 0 _ further.worker ⟨rfl, zero⟩

theorem readRandomWriteRandom_safe
    (bound : toUInt32 flags.num ≠ 0 ∨ readwrites flags ≤ 0 ∨ n = 0) (store : Store)
    : (guardedReadRandomWriteRandom flags bm kv percent).Safe n store := by
  rintro (s : System (readRandomWriteRandom flags bm kv percent) n) reachable i m running
    ⟨more, zero⟩
  have here : s.phases i = .running m := phases_of_worker running
  have mixing := mixing_of_reachable reachable i
  rw [here] at mixing
  obtain ⟨k, iterated⟩ := mixing
  have ops := iterated.ops
  have less := i.isLt
  rcases bound with nonzero | none | none
  · exact nonzero zero
  · omega
  · omega

theorem readRandomWriteRandom_bound (size : 0 ≤ bm.keySize) {store : Store}
    (safe : (guardedReadRandomWriteRandom flags bm kv percent).Safe n store)
    : toUInt32 flags.num ≠ 0 ∨ readwrites flags ≤ 0 ∨ n = 0 := by
  by_contra reached
  obtain ⟨zero, more, threads⟩ : toUInt32 flags.num = 0 ∧ 0 < readwrites flags ∧ 0 < n := by omega
  have entered : (readRandomWriteRandom flags bm kv percent).init (.make 0)
      = some ⟨.make 0, .make flags.valueSize, 0, 0, 0, 0, 0, 0, 0,
          List.replicate bm.keySize.toNat 0⟩ := by
    simp [readRandomWriteRandom, allocateKey_of_nonneg size]
  obtain ⟨s, reachable, inside⟩ := inside_reachable ⟨0, threads⟩ entered store
  exact safe s reachable ⟨0, threads⟩ _ inside.worker ⟨more, zero⟩

end Others

-----------------------------------------------------------------------------------------
-- All benchmarks
-----------------------------------------------------------------------------------------

/-- The number of threads is the one of the selected method. -/
theorem select_numThreads {threads : Int} {name : List Char} {method : MethodName}
    (selected : (select threads name).method = some method)
    : (select threads name).numThreads = method.numThreads threads := by
  have call := select_call threads name
  rw [Selection.call, selected, Option.map_some, listedCall] at call
  obtain ⟨listed, _, same⟩ := Option.map_eq_some_iff.mp call.symm
  obtain ⟨number, _, chosen⟩ := Call.mk.inj same
  rw [← number, chosen]

/-- Flags as `main` accepts them, with the sizes a benchmark needs. -/
structure Flags.Accepted (flags : Flags) : Prop where
  num : 0 ≤ flags.num ∧ flags.num < 2 ^ 31
  reads : -2 ^ 31 ≤ flags.reads ∧ flags.reads < 2 ^ 31
  threads : 0 ≤ flags.threads ∧ flags.threads < 2 ^ 31
  keySize : 1 ≤ flags.keySize ∧ flags.keySize < 2 ^ 31
  valueSize : 0 ≤ flags.valueSize ∧ flags.valueSize < 2 ^ 31

/-- The threads of a fill of `num` keys each, from the index of the last key. -/
theorem fill_bound_iff {num threads : Int} (nonneg : 0 ≤ num) (some : 0 ≤ threads)
    : (num ≤ 0 ∨ threads.toNat = 0 ∨ num - 1 + ((threads.toNat : Int) - 1) * num < 2 ^ 31)
      ↔ threads * num ≤ 2 ^ 31 := by
  have keys : ((threads.toNat : Int) - 1) * num = threads * num - num := by
    rw [Int.toNat_of_nonneg some, Int.sub_mul, Int.one_mul]
  rw [keys]
  constructor
  · rintro (none | none | bound)
    · have zero : num = 0 := by omega
      simp [zero]
    · have zero : threads = 0 := by omega
      simp [zero]
    · omega
  · omega

/-- An iteration of a loop that makes `FLAGS_num` of them has a nonzero remainder. -/
theorem divides_in_iteration {num : Int} {n : Nat} (modulus : toUInt32 num ≠ 0 ↔ num ≠ 0)
    : toUInt32 num ≠ 0 ∨ num ≤ 0 ∨ n = 0 := by
  rw [modulus]
  omega

/-- The flags keep a method safe exactly when they are its safe flags, one case per method. -/
theorem MethodName.safe_iff {flags : Flags} (accepted : flags.Accepted) (percent : Int)
    (method : MethodName)
    : (∀ (Store : Type) (kv : KV Store) (store : Store),
        (method.guarded flags (.reset flags) kv percent).Safe
          (method.numThreads flags.threads).toNat store)
      ↔ method.SafeFlags flags := by
  obtain ⟨⟨nonneg, small⟩, _, ⟨some, _⟩, ⟨key, _⟩, ⟨value, _⟩⟩ := accepted
  have size : 0 ≤ (Benchmark.reset flags).keySize := Int.le_trans (by decide) key
  have modulus : toUInt32 flags.num ≠ 0 ↔ flags.num ≠ 0 := by
    unfold toUInt32
    omega
  have running : flags.threads.toNat = 0 ↔ flags.threads = 0 := by omega
  cases method with
  | writeSeq =>
      exact ((writeLoop_family flags (.reset flags) value true).sequential_iff size nonneg).trans
        (fill_bound_iff nonneg some)
  | deleteSeq =>
      exact ((deleteLoop_family (.reset flags) true).sequential_iff size nonneg).trans
        (fill_bound_iff nonneg some)
  | readSeq =>
      refine ((readLoop_family (.reset flags) true false).sequential_iff size nonneg).trans ?_
      simp only [MethodName.numThreads, MethodName.SafeFlags, running, Int.toNat_of_nonneg some]
      exact Iff.rfl
  | writeRandom =>
      refine ((writeLoop_family flags (.reset flags) value false).random_iff size).trans ?_
      exact iff_of_true (divides_in_iteration modulus) trivial
  | deleteRandom =>
      refine ((deleteLoop_family (.reset flags) false).random_iff size).trans ?_
      exact iff_of_true (divides_in_iteration modulus) trivial
  | readRandom =>
      refine ((readLoop_family (.reset flags) false false).random_iff size).trans ?_
      exact or_congr modulus (or_congr Iff.rfl running)
  | readMissing =>
      refine ((readLoop_family (.reset flags) false true).random_iff size).trans ?_
      exact or_congr modulus (or_congr Iff.rfl running)
  | readWhileWriting =>
      have threads : (MethodName.readWhileWriting.numThreads flags.threads).toNat
          = flags.threads.toNat + 1 :=
        Int.toNat_add_nat some 1
      rw [threads]
      constructor
      · intro safe
        exact (readWhileWriting_bound size (safe Contents (mapKV fun _ => true) ∅)).imp
          modulus.mp running.mp
      · intro bound Store kv store
        exact readWhileWriting_safe (bound.imp modulus.mpr running.mpr) store
  | readRandomWriteRandom =>
      constructor
      · intro safe
        exact (readRandomWriteRandom_bound size (safe Contents (mapKV fun _ => true) ∅)).imp
          modulus.mp (Or.imp_right running.mp)
      · intro bound Store kv store
        exact readRandomWriteRandom_safe
          (bound.imp modulus.mpr (Or.imp_right running.mpr)) store

/-- No accepted flags make an execution undefined exactly when they are safe for the method
that the benchmark's name selects. A name that selects none is always safe.
-/
theorem arithmetic_safe_iff {flags : Flags} (accepted : flags.Accepted) (percent : Int)
    (name : List Char)
    : (∀ method, (select flags.threads name).method = some method
        → ∀ (Store : Type) (kv : KV Store) (store : Store),
          (method.guarded flags (.reset flags) kv percent).Safe
            (select flags.threads name).numThreads.toNat store)
      ↔ ∀ method, (select flags.threads name).method = some method
        → method.SafeFlags flags := by
  refine forall_congr' fun method => forall_congr' fun selected => ?_
  rw [select_numThreads selected]
  exact method.safe_iff accepted percent

/-- The default flags are safe for `fillseq`. -/
theorem arithmetic_safe_default
    : Flags.Accepted ⟨1000000, -1, 1, 16, 100⟩
      ∧ (MethodName.writeSeq.guarded ⟨1000000, -1, 1, 16, 100⟩
          (.reset ⟨1000000, -1, 1, 16, 100⟩) (mapKV fun _ => true) 90).Safe 1 ∅ := by
  have accepted : Flags.Accepted ⟨1000000, -1, 1, 16, 100⟩ := by
    constructor <;> decide
  refine ⟨accepted,
    (arithmetic_safe_iff accepted 90 "fillseq".toList).mpr ?_ .writeSeq rfl _ _ ∅⟩
  intro method selected
  cases selected
  show (1 : Int) * 1000000 ≤ 2 ^ 31
  decide

/-- `readrandom` of one key out of none divides by zero, and in `fillseq` of two threads with
`INT_MAX` keys each the second thread overflows.
-/
theorem arithmetic_unsafe
    : Flags.Accepted ⟨0, 1, 1, 16, 100⟩
      ∧ ¬ (MethodName.readRandom.guarded ⟨0, 1, 1, 16, 100⟩ (.reset ⟨0, 1, 1, 16, 100⟩)
          (mapKV fun _ => true) 90).Safe 1 ∅
      ∧ Flags.Accepted ⟨2147483647, -1, 2, 16, 100⟩
      ∧ ¬ (MethodName.writeSeq.guarded ⟨2147483647, -1, 2, 16, 100⟩
          (.reset ⟨2147483647, -1, 2, 16, 100⟩) (mapKV fun _ => true) 90).Safe 2 ∅ := by
  refine ⟨by constructor <;> decide, ?_, by constructor <;> decide, ?_⟩
  · intro safe
    have family := readLoop_family (.reset ⟨0, 1, 1, 16, 100⟩) false false
    have bound := random_bound (family.enter _ _) (by decide) family.total (family.seq _ _) safe
    revert bound
    decide
  · intro safe
    have family := writeLoop_family ⟨2147483647, -1, 2, 16, 100⟩
      (.reset ⟨2147483647, -1, 2, 16, 100⟩) (by decide) true
    have bound := sequential_bound (family.enter _ _) (by decide) family.total (family.seq _ _) safe
    revert bound
    decide

end PMKVLab.Bench
