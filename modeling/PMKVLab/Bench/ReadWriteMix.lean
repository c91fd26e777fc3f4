import PMKVLab.Bench.BackgroundWriter

/-! `ReadRandomWriteRandom`: two weights that count down and are refilled together choose
between a get and a put, while `Duration` counts the iterations.
-/

namespace PMKVLab.Bench

open PMKVLab.Library PMKVLab.Store

-----------------------------------------------------------------------------------------
-- Duration
-----------------------------------------------------------------------------------------

/-- The limits of a `Duration`; its counter `ops_` is kept by the caller. -/
structure Duration where
  maxSeconds : Nat
  maxOps : Int
deriving DecidableEq, Repr

/-- `Done`, with the new value of `ops_`. The clock, here `elapsed` milliseconds after the
construction, is read with a time limit only.
-/
def Duration.done (duration : Duration) (elapsed : Nat) (increment ops : Int) : Bool × Int :=
  let increment := if increment ≤ 0 then 1 else increment
  let next := ops + increment
  if duration.maxSeconds ≠ 0 then
    if next.tdiv 1000 ≠ ops.tdiv 1000 then (decide (duration.maxSeconds ≤ elapsed), next)
    else (false, next)
  else (decide (duration.maxOps < next), next)

/-- `FLAGS_duration`, a constant. -/
def flagsDuration : Nat := 0

/-- `readwrites_`, set by the constructor of `Benchmark`. -/
def readwrites (flags : Flags) : Int := if flags.reads < 0 then flags.num else flags.reads

/-- The `duration` of `ReadRandomWriteRandom`. -/
def mixDuration (flags : Flags) : Duration := ⟨flagsDuration, readwrites flags⟩

/-- Without a time limit the iterations are counted. -/
theorem mixDuration_done (flags : Flags) (ops : Int)
    : (mixDuration flags).done 0 1 ops = (decide (readwrites flags < ops + 1), ops + 1) :=
  rfl

-----------------------------------------------------------------------------------------
-- The method
-----------------------------------------------------------------------------------------

/-- The locals of `ReadRandomWriteRandom`; `ops` is the counter of its `duration`. -/
structure MixState where
  thread : ThreadState
  gen : RandomGenerator
  found : Nat
  getWeight : Int
  putWeight : Int
  readsDone : Nat
  writesDone : Nat
  bytes : Nat
  ops : Int
  key : Bytes

namespace MixState

variable {Store : Type} (flags : Flags) (bm : Benchmark) (kv : KV Store)

/-- The key of an iteration, from the next random number. -/
def drawKey (m : MixState) : MixState :=
  let (value, rand) := m.thread.rand.next
  { m with
    thread := { m.thread with rand := rand }
    key := generateKeyFromInt bm.keySize (value % toUInt32 flags.num) m.key }

/-- One batch is completed when both weights are zero. -/
def refill (percent : Int) (m : MixState) : MixState :=
  if m.getWeight = 0 ∧ m.putWeight = 0 then
    { m with getWeight := percent, putWeight := toInt32 (100 - percent) }
  else m

def finishOp (m : MixState) : MixState :=
  { m with thread := { m.thread with stats := m.thread.stats.finishedSingleOp } }

/-- A failing get is only printed. -/
def get (m : MixState) (store : Store) : MixState :=
  let (status, value) := kv.get m.key store
  finishOp
    { m with
      found := m.found + if status = .ok then 1 else 0
      bytes := m.bytes + (value.length + m.key.length)
      getWeight := m.getWeight - 1
      readsDone := m.readsDone + 1 }

/-- A failing put ends the process. So does a negative length here, for which `Generate`
gives a window that ends behind the data and reading it is undefined.
-/
def put (m : MixState) (store : Store) : Outcome MixState Store :=
  if bm.valueSize < 0 then .aborts
  else
    let (data, gen) := m.gen.generate bm.valueSize.toNat
    match kv.put m.key data store with
    | (.ok .ok, next) =>
        .continues
          (finishOp
            { m with
              gen := gen
              bytes := m.bytes + (m.key.length + bm.valueSize.toNat)
              putWeight := m.putWeight - 1
              writesDone := m.writesDone + 1 }) next
    | _ => .aborts

/-- The branches of the loop's body. -/
def operate (m : MixState) (store : Store) : Outcome MixState Store :=
  if m.getWeight > 0 then .continues (m.get kv store) store
  else if m.putWeight > 0 then m.put bm kv store
  else .continues m store

end MixState

/-- The line added to the statistics, with `PRIu64` for its numbers. -/
def mixMessage (readsDone writesDone : Nat) (total : Int) (found : Nat) : String :=
  "( reads:" ++ toString readsDone ++ " writes:" ++ toString writesDone
    ++ " total:" ++ toString (toUInt64 total) ++ " found:" ++ toString found ++ ")"

def MixState.leave (flags : Flags) (m : MixState) : ThreadState :=
  { m.thread with
    stats := (m.thread.stats.addBytes m.bytes).addMessage
      (mixMessage m.readsDone m.writesDone (readwrites flags) m.found) }

/-- `ReadRandomWriteRandom` with `FLAGS_readwritepercent`; `% FLAGS_num` traps when the flag
is zero.
-/
def readRandomWriteRandom {Store : Type} (flags : Flags) (bm : Benchmark) (kv : KV Store)
    (percent : Int)
    : Method Store where
  Local := MixState
  thread m := m.thread
  init thread :=
    (allocateKey bm.keySize).map (fun key =>
      ⟨thread, .make flags.valueSize, 0, 0, 0, 0, 0, 0, 0, key⟩)
  step _ m store :=
    let (done, ops) := (mixDuration flags).done 0 1 m.ops
    if done then .returns (m.leave flags) store
    else if toUInt32 flags.num = 0 then .aborts
    else ((({ m with ops := ops }).drawKey flags bm).refill percent).operate bm kv store

-----------------------------------------------------------------------------------------
-- The weights alone
-----------------------------------------------------------------------------------------

/-- The weights and the counters of the two operations. -/
structure Mix where
  get : Int
  put : Int
  reads : Nat
  writes : Nat
deriving DecidableEq, Repr

namespace Mix

def start : Mix := ⟨0, 0, 0, 0⟩

def refill (percent : Int) (mix : Mix) : Mix :=
  if mix.get = 0 ∧ mix.put = 0 then
    { mix with get := percent, put := toInt32 (100 - percent) }
  else mix

def operate (mix : Mix) : Mix :=
  if mix.get > 0 then { mix with get := mix.get - 1, reads := mix.reads + 1 }
  else if mix.put > 0 then { mix with put := mix.put - 1, writes := mix.writes + 1 }
  else mix

/-- The weights after `k` iterations. -/
def after (percent : Int) : Nat → Mix
  | 0 => start
  | k + 1 => ((after percent k).refill percent).operate

end Mix

/-- The operations among the first `k` that are gets. -/
def mixReads (p k : Nat) : Nat := k / 100 * p + min (k % 100) p

section Weights

variable {percent : Int} {p q r k : Nat}

theorem mixReads_batch (early : r < 100) : mixReads p (100 * q + r) = q * p + min r p := by
  have quotient : (100 * q + r) / 100 = q := by omega
  have remainder : (100 * q + r) % 100 = r := by omega
  rw [mixReads, quotient, remainder]

theorem toInt32_of_lt {value : Int} (low : -2 ^ 31 ≤ value) (high : value < 2 ^ 31)
    : toInt32 value = value := by
  rw [toInt32, Int.bmod_def]
  omega

/-- `r` operations of batch `q` are done, the gets first. At the end of a batch both weights
are zero, and stay so until the next operation.
-/
structure Mix.Batch (p q r : Nat) (mix : Mix) : Prop where
  reads : mix.reads = q * p + min r p
  total : mix.reads + mix.writes = 100 * q + r
  weights : r = 0 ∧ mix.get = 0 ∧ mix.put = 0
    ∨ 0 < r ∧ mix.get = p - min r p ∧ mix.put = (100 - p) - (r - min r p)

/-- The weights of an operation, whether or not its batch has just begun. -/
theorem Mix.Batch.refilled {mix : Mix} (batch : mix.Batch p q r) (atMost : p ≤ 100)
    (early : r < 100)
    : mix.refill p
      = ⟨p - min r p, (100 - p) - (r - min r p), q * p + min r p, mix.writes⟩ := by
  obtain ⟨reads, total, ⟨first, get, put⟩ | ⟨begun, get, put⟩⟩ := batch
  · have rest : toInt32 (100 - p) = 100 - p := toInt32_of_lt (by omega) (by omega)
    rw [Mix.refill, if_pos ⟨get, put⟩, rest, reads, first]
    simp
  · have pending : ¬ (mix.get = 0 ∧ mix.put = 0) := by omega
    rw [Mix.refill, if_neg pending, ← get, ← put, ← reads]

/-- After an operation its batch goes on, or the next one is at its start. -/
theorem Mix.Batch.of_operation {mix : Mix} (atMost : p ≤ 100) (early : r < 100)
    (reads : mix.reads = q * p + min (r + 1) p)
    (total : mix.reads + mix.writes = 100 * q + (r + 1))
    (get : mix.get = p - min (r + 1) p)
    (put : mix.put = (100 - p) - ((r + 1) - min (r + 1) p))
    : (r + 1 < 100 ∧ mix.Batch p q (r + 1)) ∨ (r + 1 = 100 ∧ mix.Batch p (q + 1) 0) := by
  by_cases last : r + 1 = 100
  · have another : (q + 1) * p = q * p + p := Nat.succ_mul q p
    exact .inr ⟨last, by omega, by omega, .inl ⟨rfl, by omega, by omega⟩⟩
  · exact .inl ⟨by omega, reads, total, .inr ⟨by omega, get, put⟩⟩

/-- One more operation inside the batch, or the last one. -/
theorem Mix.Batch.next {mix : Mix} (batch : mix.Batch p q r) (atMost : p ≤ 100)
    (early : r < 100)
    : (r + 1 < 100 ∧ ((mix.refill p).operate).Batch p q (r + 1))
      ∨ (r + 1 = 100 ∧ ((mix.refill p).operate).Batch p (q + 1) 0) := by
  have total := batch.total
  have reads := batch.reads
  rw [batch.refilled atMost early]
  by_cases reading : r < p
  · have gets : (p : Int) - min r p > 0 := by omega
    simp only [Mix.operate, gets, if_true]
    refine Mix.Batch.of_operation atMost early ?_ ?_ ?_ ?_
    all_goals dsimp only
    all_goals omega
  · have noGets : ¬ (p : Int) - min r p > 0 := by omega
    have puts : (100 - p : Int) - (r - min r p) > 0 := by omega
    simp only [Mix.operate, noGets, puts, if_true, if_false]
    refine Mix.Batch.of_operation atMost early ?_ ?_ ?_ ?_
    all_goals dsimp only
    all_goals omega

/-- Every iteration is an operation of some batch. -/
theorem Mix.after_batch (atMost : p ≤ 100) (k : Nat)
    : ∃ q r, k = 100 * q + r ∧ r < 100 ∧ (Mix.after p k).Batch p q r := by
  induction k with
  | zero => exact ⟨0, 0, rfl, by omega, by simp [after, start], rfl, .inl ⟨rfl, rfl, rfl⟩⟩
  | succ k ih =>
      obtain ⟨q, r, split, early, batch⟩ := ih
      rcases batch.next atMost early with ⟨inside, next⟩ | ⟨last, next⟩
      · exact ⟨q, r + 1, by omega, inside, next⟩
      · exact ⟨q + 1, 0, by omega, by omega, next⟩

/-- The exact mix of a percentage. -/
theorem Mix.after_reads (atMost : p ≤ 100) (k : Nat)
    : (Mix.after p k).reads = mixReads p k
      ∧ (Mix.after p k).reads + (Mix.after p k).writes = k := by
  obtain ⟨q, r, rfl, early, batch⟩ := Mix.after_batch atMost k
  exact ⟨batch.reads.trans (mixReads_batch early).symm, batch.total⟩

/-- The weights of operation `k` of a percentage choose a get in the first `p` places of a
batch and a put in the others.
-/
theorem Mix.after_chooses (atMost : p ≤ 100) (k : Nat)
    : (k % 100 < p → ((Mix.after p k).refill p).get > 0)
      ∧ (p ≤ k % 100 → ¬ ((Mix.after p k).refill p).get > 0
        ∧ ((Mix.after p k).refill p).put > 0) := by
  obtain ⟨q, r, rfl, early, batch⟩ := Mix.after_batch atMost k
  have place : (100 * q + r) % 100 = r := by omega
  rw [batch.refilled atMost early, place]
  dsimp only
  omega

/-- `k` iterations with a percentage that is none: the weights are filled once, one of them
with a negative number, and never return to zero together. `w` is the weight of puts.
-/
structure Mix.Stalling (percent w : Int) (k : Nat) (mix : Mix) : Prop where
  total : (mix.reads + mix.writes : Int) = min (k : Int) (max percent 0 + max w 0)
  reads : (mix.reads : Int) ≤ max percent 0
  writes : (mix.writes : Int) ≤ max w 0
  weights : k = 0 ∧ mix.get = 0 ∧ mix.put = 0
    ∨ 0 < k ∧ mix.get = percent - mix.reads ∧ mix.put = w - mix.writes

/-- The weights of an iteration: only the first one fills them. -/
theorem Mix.Stalling.refilled {mix : Mix} {w : Int} (stalling : mix.Stalling percent w k)
    (wraps : toInt32 (100 - percent) = w) (negative : percent < 0 ∨ w < 0)
    : mix.refill percent = ⟨percent - mix.reads, w - mix.writes, mix.reads, mix.writes⟩ := by
  obtain ⟨total, reads, writes, ⟨first, get, put⟩ | ⟨begun, get, put⟩⟩ := stalling
  · have none : mix.reads = 0 ∧ mix.writes = 0 := by omega
    rw [Mix.refill, if_pos ⟨get, put⟩, wraps, none.1, none.2]
    simp
  · have pending : ¬ (mix.get = 0 ∧ mix.put = 0) := by omega
    rw [Mix.refill, if_neg pending, ← get, ← put]

theorem Mix.Stalling.next {mix : Mix} {w : Int} (stalling : mix.Stalling percent w k)
    (wraps : toInt32 (100 - percent) = w) (negative : percent < 0 ∨ w < 0)
    : ((mix.refill percent).operate).Stalling percent w (k + 1) := by
  rw [stalling.refilled wraps negative]
  obtain ⟨total, reads, writes, _⟩ := stalling
  by_cases gets : percent - mix.reads > 0
  · simp only [Mix.operate, gets, if_true]
    refine ⟨?_, ?_, writes, .inr ⟨Nat.succ_pos k, ?_, rfl⟩⟩
    all_goals dsimp only
    all_goals omega
  · by_cases puts : w - mix.writes > 0
    · simp only [Mix.operate, gets, puts, if_true, if_false]
      refine ⟨?_, reads, ?_, .inr ⟨Nat.succ_pos k, rfl, ?_⟩⟩
      all_goals dsimp only
      all_goals omega
    · simp only [Mix.operate, gets, puts, if_false]
      refine ⟨?_, reads, writes, .inr ⟨Nat.succ_pos k, rfl, rfl⟩⟩
      dsimp only
      omega

theorem Mix.after_stalling {w : Int} (wraps : toInt32 (100 - percent) = w)
    (negative : percent < 0 ∨ w < 0) (k : Nat)
    : (Mix.after percent k).Stalling percent w k := by
  induction k with
  | zero =>
      refine ⟨?_, ?_, ?_, .inl ⟨rfl, rfl, rfl⟩⟩
      all_goals simp only [after, start]
      all_goals omega
  | succ k ih => exact ih.next wraps negative

/-- Every iteration performs an operation exactly for a percentage, or while the weights of
the first filling last.
-/
theorem Mix.after_total_iff (low : -2 ^ 31 ≤ percent) (high : percent < 2 ^ 31) (k : Nat)
    : (Mix.after percent k).reads + (Mix.after percent k).writes = k
      ↔ (0 ≤ percent ∧ percent ≤ 100)
        ∨ (k : Int) ≤ max percent 0 + max (toInt32 (100 - percent)) 0 := by
  by_cases inside : 0 ≤ percent ∧ percent ≤ 100
  · obtain ⟨p, rfl⟩ := Int.eq_ofNat_of_zero_le inside.1
    exact ⟨fun _ => .inl inside, fun _ => (Mix.after_reads (by omega) k).2⟩
  · have negative : percent < 0 ∨ toInt32 (100 - percent) < 0 := by
      by_cases below : percent < 0
      · exact .inl below
      · rw [toInt32_of_lt (by omega) (by omega)]
        exact .inr (by omega)
    have total := (Mix.after_stalling rfl negative k).total
    omega

/-- An iteration that performs an operation had a weight for it. -/
theorem Mix.weights_of_total {k : Nat}
    (before : (Mix.after percent k).reads + (Mix.after percent k).writes = k)
    (total : (Mix.after percent (k + 1)).reads + (Mix.after percent (k + 1)).writes = k + 1)
    : ((Mix.after percent k).refill percent).get > 0
      ∨ ((Mix.after percent k).refill percent).put > 0 := by
  by_contra none
  rw [not_or] at none
  have kept : ((Mix.after percent k).refill percent).reads = (Mix.after percent k).reads
      ∧ ((Mix.after percent k).refill percent).writes = (Mix.after percent k).writes := by
    unfold Mix.refill
    split <;> exact ⟨rfl, rfl⟩
  have skipped : Mix.after percent (k + 1) = (Mix.after percent k).refill percent := by
    rw [after, operate, if_neg none.1, if_neg none.2]
  rw [skipped, kept.1, kept.2] at total
  omega

end Weights

-----------------------------------------------------------------------------------------
-- Runs of the method
-----------------------------------------------------------------------------------------

def MixState.mix (m : MixState) : Mix := ⟨m.getWeight, m.putWeight, m.readsDone, m.writesDone⟩

/-- What the iterations have counted. -/
structure MixState.Tallied (m : MixState) : Prop where
  done : m.thread.stats.done = m.readsDone + m.writesDone
  message : m.thread.stats.message = ""
  found : m.found ≤ m.readsDone

/-- The locals after `k` iterations. -/
structure MixState.Iterated (flags : Flags) (percent : Int) (k : Nat) (m : MixState) : Prop where
  ops : m.ops = k
  bound : k ≤ (readwrites flags).toNat
  mix : m.mix = Mix.after percent k
  tallied : m.Tallied

section Steps

variable {Store : Type} {flags : Flags} {bm : Benchmark} {kv : KV Store} {percent : Int}

/-- Refilling changes the weights only. -/
theorem MixState.refill_eq (m : MixState) (percent : Int)
    : m.refill percent
      = { m with
          getWeight := (m.mix.refill percent).get
          putWeight := (m.mix.refill percent).put } := by
  unfold MixState.refill Mix.refill
  by_cases both : m.getWeight = 0 ∧ m.putWeight = 0
  · rw [if_pos both, if_pos (show m.mix.get = 0 ∧ m.mix.put = 0 from both)]
  · rw [if_neg both, if_neg (show ¬ (m.mix.get = 0 ∧ m.mix.put = 0) from both)]
    rfl

theorem MixState.refill_mix (m : MixState) : (m.refill percent).mix = m.mix.refill percent := by
  unfold MixState.refill Mix.refill
  split
  · next both => exact (if_pos both).symm
  · next pending => exact (if_neg pending).symm

/-- An iteration that is a get of the key: it leaves the store alone and counts what the get
returns.
-/
structure MixState.Gets (kv : KV Store) (key : Bytes) (m next : MixState) (store after : Store)
    : Prop where
  left : after = store
  found : next.found = m.found + if (kv.get key store).1 = .ok then 1 else 0
  bytes : next.bytes = m.bytes + ((kv.get key store).2.length + key.length)
  reads : next.readsDone = m.readsDone + 1
  writes : next.writesDone = m.writesDone

/-- An iteration that is a put of the key: the put succeeds, and leaves the store. -/
structure MixState.Puts (kv : KV Store) (key data : Bytes) (m next : MixState)
    (store after : Store) : Prop where
  succeeded : (kv.put key data store).1 = .ok .ok
  left : after = (kv.put key data store).2
  found : next.found = m.found
  reads : next.readsDone = m.readsDone
  writes : next.writesDone = m.writesDone + 1

/-- What an iteration does after it has drawn its key: the weights choose one call, and the
counters go with it.
-/
structure MixState.Operated (bm : Benchmark) (kv : KV Store) (m next : MixState)
    (store after : Store) : Prop where
  gets : m.getWeight > 0 → m.Gets kv m.key next store after
  puts : ¬ m.getWeight > 0 → m.putWeight > 0
    → m.Puts kv m.key (m.gen.generate bm.valueSize.toNat).1 next store after
  skips : ¬ m.getWeight > 0 → ¬ m.putWeight > 0 → after = store
  mix : next.mix = m.mix.operate
  ops : next.ops = m.ops
  tallied : m.Tallied → next.Tallied

/-- What a put does, by the result of the wrapper's call. -/
theorem MixState.put_cases (m : MixState) (store : Store) (bm : Benchmark) (kv : KV Store)
    (noGets : ¬ m.getWeight > 0) (puts : m.putWeight > 0)
    : (m.put bm kv store = .aborts
        ∧ (bm.valueSize < 0 ∨ ∃ data, (kv.put m.key data store).1 ≠ .ok .ok))
      ∨ ∃ next after, m.put bm kv store = .continues next after
          ∧ m.Operated bm kv next store after := by
  unfold MixState.put
  split
  · next negative => exact .inl ⟨rfl, .inl negative⟩
  · dsimp only
    split
    · next after called =>
      have branch : m.mix.operate = _ := (if_neg noGets).trans (if_pos puts)
      refine .inr ⟨_, after, rfl, fun gets => absurd gets noGets, fun _ _ => ?_,
        fun _ noPuts => absurd puts noPuts, branch.symm, rfl, fun tallied => ?_⟩
      · exact ⟨by rw [called], by rw [called], rfl, rfl, rfl⟩
      · exact ⟨congrArg (· + 1) tallied.done, tallied.message, tallied.found⟩
    · next failed =>
      refine .inl ⟨rfl, .inr ⟨(m.gen.generate bm.valueSize.toNat).1, fun succeeded => ?_⟩⟩
      exact failed _ (Prod.ext succeeded rfl)

/-- What an iteration does, one case per branch, unless a put has failed. -/
theorem MixState.operate_cases (m : MixState) (store : Store) (bm : Benchmark) (kv : KV Store)
    : (m.operate bm kv store = .aborts
        ∧ (bm.valueSize < 0 ∨ ∃ data, (kv.put m.key data store).1 ≠ .ok .ok))
      ∨ ∃ next after, m.operate bm kv store = .continues next after
          ∧ m.Operated bm kv next store after := by
  unfold MixState.operate
  split
  · next gets =>
    refine .inr ⟨_, store, rfl, fun _ => ⟨rfl, rfl, rfl, rfl, rfl⟩,
      fun noGets => absurd gets noGets, fun noGets => absurd gets noGets,
      (if_pos gets).symm, rfl, fun tallied => ⟨?_, tallied.message, ?_⟩⟩
    · have done := congrArg (· + 1) tallied.done
      exact done.trans (Nat.add_right_comm _ _ _)
    · have found := tallied.found
      simp only [MixState.get, MixState.finishOp]
      split <;> omega
  · next noGets =>
    split
    · next puts => exact m.put_cases store bm kv noGets puts
    · next noPuts =>
      have branch : m.mix.operate = m.mix := (if_neg noGets).trans (if_neg noPuts)
      exact .inr ⟨m, store, rfl, fun gets => absurd gets noGets,
        fun _ puts => absurd puts noPuts, fun _ _ => rfl, branch.symm, rfl, id⟩

/-- An iteration of the method: it draws its key, and its weights after the refill choose a
get, a put or nothing.
-/
structure MixState.Iterates (flags : Flags) (bm : Benchmark) (kv : KV Store) (percent : Int)
    (m next : MixState) (store after : Store) : Prop where
  gets : (m.mix.refill percent).get > 0 → m.Gets kv (m.drawKey flags bm).key next store after
  puts : ¬ (m.mix.refill percent).get > 0 → (m.mix.refill percent).put > 0
    → m.Puts kv (m.drawKey flags bm).key (m.gen.generate bm.valueSize.toNat).1 next store after
  skips : ¬ (m.mix.refill percent).get > 0 → ¬ (m.mix.refill percent).put > 0 → after = store
  mix : next.mix = (m.mix.refill percent).operate
  ops : next.ops = m.ops + 1
  tallied : m.Tallied → next.Tallied

/-- An iteration changes the store by a put, if at all. -/
theorem MixState.Iterates.called {m next : MixState} {store after : Store}
    (iterates : m.Iterates flags bm kv percent next store after)
    : after = store ∨ ∃ key data, after = (kv.put key data store).2 := by
  by_cases gets : (m.mix.refill percent).get > 0
  · exact .inl (iterates.gets gets).left
  · by_cases puts : (m.mix.refill percent).put > 0
    · exact .inr ⟨_, _, (iterates.puts gets puts).left⟩
    · exact .inl (iterates.skips gets puts)

/-- One step of the method: the loop is left once `Duration` has counted all operations, and
otherwise the process ends or an iteration is made.
-/
inductive MixStep (flags : Flags) (bm : Benchmark) (kv : KV Store) (percent : Int)
    (m : MixState) (store : Store) : Outcome MixState Store → Prop
  | leaves (counted : readwrites flags ≤ m.ops)
    : MixStep flags bm kv percent m store (.returns (m.leave flags) store)
  | aborts (more : m.ops < readwrites flags)
    (cause : toUInt32 flags.num = 0 ∨ bm.valueSize < 0
      ∨ ∃ key data, (kv.put key data store).1 ≠ .ok .ok)
    : MixStep flags bm kv percent m store .aborts
  | iterates (more : m.ops < readwrites flags) (next : MixState) (after : Store)
    (iterates : m.Iterates flags bm kv percent next store after)
    : MixStep flags bm kv percent m store (.continues next after)

/-- Every step of the method is one of these. -/
theorem mixStep {m : MixState} {store : Store} {shared : SharedState}
    {outcome : Outcome MixState Store}
    (stepped : (readRandomWriteRandom flags bm kv percent).step shared m store = outcome)
    : MixStep flags bm kv percent m store outcome := by
  subst stepped
  simp only [readRandomWriteRandom, mixDuration_done]
  split
  · next done => exact .leaves (Int.lt_add_one_iff.mp (of_decide_eq_true done))
  · next running =>
    have more : m.ops < readwrites flags := by
      have bound := of_decide_eq_false (Bool.eq_false_of_not_eq_true running)
      omega
    split
    · next zero => exact .aborts more (.inl zero)
    · let drawn := ({ m with ops := m.ops + 1 } : MixState).drawKey flags bm
      rcases (drawn.refill percent).operate_cases store bm kv with
        ⟨aborts, cause⟩ | ⟨next, after, operated, made⟩
      · rw [aborts]
        exact .aborts more (.inr (cause.imp_right fun ⟨data, failed⟩ => ⟨_, data, failed⟩))
      · have mix := made.mix.trans (congrArg Mix.operate drawn.refill_mix)
        rw [operated]
        rw [drawn.refill_eq percent] at made
        refine .iterates more next after ⟨fun gets => ?_, fun noGets puts => ?_, made.skips,
          mix, made.ops, fun before => ?_⟩
        · obtain ⟨same, found, bytes, reads, writes⟩ := made.gets gets
          exact ⟨same, found, bytes, reads, writes⟩
        · obtain ⟨succeeded, put, found, reads, writes⟩ := made.puts noGets puts
          exact ⟨succeeded, put, found, reads, writes⟩
        · exact made.tallied ⟨before.done, before.message, before.found⟩

/-- The phase of a thread: where its iterations are, or where they ended. -/
def Mixing (flags : Flags) (bm : Benchmark) (kv : KV Store) (percent : Int) (_tid : Nat)
    : Phase (readRandomWriteRandom flags bm kv percent) → Prop
  | .waiting => True
  | .running (m : MixState) => ∃ k, m.Iterated flags percent k
  | .finished thread => ∃ m : MixState, m.Iterated flags percent (readwrites flags).toNat
      ∧ thread = m.leave flags

theorem mixing_keeps (n : Nat)
    : (readRandomWriteRandom flags bm kv percent).Keeps n
        (fun phases _ => ∀ i : Fin n, Mixing flags bm kv percent i (phases i)) := by
  apply Method.keeps_each
  · intro i m entered
    obtain ⟨key, _, rfl⟩ := Option.map_eq_some_iff.mp entered
    exact ⟨0, rfl, Nat.zero_le _, rfl, rfl, rfl, Nat.le_refl 0⟩
  · intro i m next store after shared mixing stepped
    obtain ⟨k, iterated⟩ := mixing
    cases mixStep stepped with
    | iterates more _ _ iterates =>
        have count := iterated.ops
        refine ⟨k + 1, ?_, ?_, ?_, iterates.tallied iterated.tallied⟩
        · rw [iterates.ops, count]
          rfl
        · omega
        · rw [iterates.mix, iterated.mix]
          rfl
  · intro i m thread store after shared mixing stepped
    obtain ⟨k, iterated⟩ := mixing
    cases mixStep stepped with
    | leaves counted =>
        have last : k = (readwrites flags).toNat := by
          have ops := iterated.ops
          have bound := iterated.bound
          omega
        exact ⟨m, last ▸ iterated, rfl⟩

theorem mixing_of_reachable {n : Nat} {store : Store}
    {s : System (readRandomWriteRandom flags bm kv percent) n}
    (reachable : Reachable System.step
      (System.init (readRandomWriteRandom flags bm kv percent) n store) s)
    (i : Fin n)
    : Mixing flags bm kv percent i (s.phases i) :=
  (mixing_keeps n).of_reachable (fun _ => trivial) reachable i

/-- What a thread's statistics are after the loop. -/
theorem MixState.Iterated.leave {m : MixState} {k : Nat} (iterated : m.Iterated flags percent k)
    : (m.leave flags).stats.done = m.readsDone + m.writesDone
      ∧ (m.leave flags).stats.message
        = mixMessage m.readsDone m.writesDone (readwrites flags) m.found := by
  refine ⟨iterated.tallied.done, ?_⟩
  simp only [MixState.leave, Stats.addMessage, Stats.addBytes, iterated.tallied.message,
    Stats.appendWithSpace_empty]

/-- The number of iterations left ranks the method. -/
theorem mix_ranked
    : (readRandomWriteRandom flags bm kv percent).Ranked
        (fun m : MixState => (readwrites flags - m.ops).toNat)
        (fun _ => (readwrites flags).toNat) where
  begins {i m} entered := by
    obtain ⟨key, _, rfl⟩ := Option.map_eq_some_iff.mp entered
    exact Nat.le_of_eq (congrArg Int.toNat (Int.sub_zero _))
  continues {m next store after shared} stepped := by
    cases mixStep stepped with
    | iterates more _ _ iterates =>
        have ops := iterates.ops
        have fewer : readwrites flags - MixState.ops next < readwrites flags - m.ops := by omega
        omega

/-- No run ends the process when keys can be drawn and puts succeed on usable stores. -/
theorem mix_completes {usable : Store → Prop} (size : 0 ≤ bm.keySize)
    (fits : 0 ≤ bm.valueSize) (divides : toUInt32 flags.num ≠ 0)
    (puts : ∀ key data store, usable store
      → (kv.put key data store).1 = .ok .ok ∧ usable (kv.put key data store).2)
    (n : Nat) {store : Store} (initial : usable store)
    : (readRandomWriteRandom flags bm kv percent).Completes n store := by
  have keeps : (readRandomWriteRandom flags bm kv percent).Keeps n
      (fun _ store => usable store) := by
    refine ⟨fun holds _ _ => holds, ?_, ?_⟩
    · intro phases store after i m next shared holds _ stepped
      cases mixStep stepped with
      | iterates more _ _ iterates =>
          rcases iterates.called with rfl | ⟨key, data, rfl⟩
          · exact holds
          · exact (puts key data store holds).2
    · intro phases store after i m thread shared holds _ stepped
      cases mixStep stepped with
      | leaves => exact holds
  have safe : (readRandomWriteRandom flags bm kv percent).Safe n
      (fun _ store => usable store) := by
    refine ⟨keeps, ?_, ?_⟩
    · intro i
      simp [readRandomWriteRandom, allocateKey, Int.not_lt.mpr size]
    · intro phases store i m holds _ shared stopped
      cases mixStep stopped with
      | aborts more cause =>
          rcases cause with zero | negative | ⟨key, data, failed⟩
          · exact divides zero
          · exact absurd negative (Int.not_lt.mpr fits)
          · exact failed (puts key data store holds).1
  exact safe.completes mix_ranked initial

/-- While every iteration performs an operation, a running thread makes one get or one put. -/
theorem mix_calls {N : Nat} (low : -2 ^ 31 ≤ percent) (high : percent < 2 ^ 31)
    (total : readwrites flags = N)
    (all : (0 ≤ percent ∧ percent ≤ 100)
      ∨ (N : Int) ≤ max percent 0 + max (toInt32 (100 - percent)) 0)
    {n : Nat} {store : Store} {s : System (readRandomWriteRandom flags bm kv percent) n}
    (reachable : Reachable System.step
      (System.init (readRandomWriteRandom flags bm kv percent) n store) s)
    {i : Fin n} {m next : MixState} {after : Store} (running : s.phases i = .running m)
    (stepped : (readRandomWriteRandom flags bm kv percent).step s.shared m s.store
      = .continues next after)
    : m.Gets kv (m.drawKey flags bm).key next s.store after
      ∨ m.Puts kv (m.drawKey flags bm).key (m.gen.generate bm.valueSize.toNat).1 next s.store
        after := by
  have mixing := mixing_of_reachable reachable i
  rw [running] at mixing
  obtain ⟨k, iterated⟩ := mixing
  cases mixStep stepped with
  | iterates more _ _ iterates =>
      have ops := iterated.ops
      have counted (j : Nat) (early : j ≤ k + 1)
          : (Mix.after percent j).reads + (Mix.after percent j).writes = j := by
        refine (Mix.after_total_iff low high j).mpr (all.imp_right fun few => ?_)
        omega
      have weights := Mix.weights_of_total (counted k (by omega)) (counted (k + 1) (by omega))
      rw [← iterated.mix] at weights
      by_cases gets : (m.mix.refill percent).get > 0
      · exact .inl (iterates.gets gets)
      · exact .inr (iterates.puts gets (weights.resolve_left gets))

/-- On a finite map every thread of some run returns. -/
theorem mix_finishes (flags : Flags) (bm : Benchmark) (fits : Nat → Bool)
    (size : 0 ≤ bm.keySize) (nonneg : 0 ≤ bm.valueSize) (divides : toUInt32 flags.num ≠ 0)
    (percent : Int) (n : Nat)
    : ∃ s, Reachable System.step
        (System.init (readRandomWriteRandom flags bm (mapKV fits) percent) n ∅) s
      ∧ ∀ i, ∃ thread, s.phases i = .finished thread := by
  have complete : (readRandomWriteRandom flags bm (mapKV fits) percent).Completes n ∅ :=
    mix_completes size nonneg divides (fun _ _ _ (usable : True) => ⟨rfl, usable⟩) n trivial
  obtain ⟨s, reachable, finished⟩ := complete.completable _ (.refl _ _)
  obtain ⟨threads, returned, _⟩ := finished.returned (.of_reachable reachable)
  exact ⟨s, reachable, fun i => ⟨threads i, returned i⟩⟩

end Steps

-----------------------------------------------------------------------------------------
-- The mix
-----------------------------------------------------------------------------------------

/-- The mix of a percentage `p` in every run, with any number of threads and every
interleaving: after `k` iterations a thread has made `mixReads p k` gets and the rest of the
`k` operations were puts, for iteration `k` is one get of the drawn key in the first `p`
places of a batch and one put of it in the others. The thread leaves the loop after exactly
`N` iterations, and its statistics count `N` operations. When keys can be drawn and no put
fails, every run completes.
-/
theorem readRandomWriteRandom_mix {Store : Type} (flags : Flags) (bm : Benchmark)
    (kv : KV Store) (p N : Nat) (atMost : p ≤ 100) (total : readwrites flags = N) (n : Nat)
    (store : Store)
    : (∀ s, Reachable System.step
          (System.init (readRandomWriteRandom flags bm kv p) n store) s
        → (∀ (i : Fin n) (m : MixState), s.phases i = .running m
            → ∃ k ≤ N, m.ops = k
              ∧ m.readsDone = mixReads p k
              ∧ m.writesDone = k - mixReads p k
              ∧ m.thread.stats.done = k
              ∧ (∀ (next : MixState) after,
                  (readRandomWriteRandom flags bm kv p).step s.shared m s.store
                    = .continues next after
                  → (k % 100 < p → m.Gets kv (m.drawKey flags bm).key next s.store after)
                    ∧ (p ≤ k % 100 → m.Puts kv (m.drawKey flags bm).key
                        (m.gen.generate bm.valueSize.toNat).1 next s.store after))
              ∧ ((∃ thread after, (readRandomWriteRandom flags bm kv p).step s.shared m s.store
                    = .returns thread after)
                ↔ k = N))
          ∧ (∀ (i : Fin n) (thread : ThreadState), s.phases i = .finished thread
            → thread.stats.done = N
              ∧ ∃ found ≤ mixReads p N, thread.stats.message
                  = mixMessage (mixReads p N) (N - mixReads p N) N found))
      ∧ (∀ usable : Store → Prop, usable store
          → (∀ key data store, usable store
            → (kv.put key data store).1 = .ok .ok ∧ usable (kv.put key data store).2)
          → 0 ≤ bm.keySize → 0 ≤ bm.valueSize → toUInt32 flags.num ≠ 0
          → (readRandomWriteRandom flags bm kv p).Completes n store) := by
  have counts {k : Nat} {m : MixState} (iterated : m.Iterated flags p k)
      : m.readsDone = mixReads p k ∧ m.writesDone = k - mixReads p k
        ∧ m.thread.stats.done = k := by
    obtain ⟨reads, both⟩ := Mix.after_reads atMost k
    rw [← iterated.mix] at reads both
    have reads : m.readsDone = mixReads p k := reads
    have both : m.readsDone + m.writesDone = k := both
    have done := iterated.tallied.done
    exact ⟨reads, by omega, by omega⟩
  refine ⟨fun s reachable => ⟨?_, ?_⟩, ?_⟩
  · intro i m running
    have mixing := mixing_of_reachable reachable i
    rw [running] at mixing
    obtain ⟨k, iterated⟩ := mixing
    obtain ⟨reads, writes, done⟩ := counts iterated
    have bound := iterated.bound
    have ops := iterated.ops
    refine ⟨k, by omega, ops, reads, writes, done, ?_, ?_, ?_⟩
    · intro next after stepped
      obtain ⟨early, late⟩ := Mix.after_chooses atMost k
      rw [← iterated.mix] at early late
      cases mixStep stepped with
      | iterates more _ _ iterates =>
          exact ⟨fun place => iterates.gets (early place),
            fun place => iterates.puts (late place).1 (late place).2⟩
    · rintro ⟨thread, after, stepped⟩
      cases mixStep stepped with
      | leaves counted => omega
    · intro last
      cases stepped : (readRandomWriteRandom flags bm kv p).step s.shared m s.store with
      | returns thread after => exact ⟨thread, after, rfl⟩
      | continues next after =>
          cases mixStep stepped with
          | iterates more => omega
      | aborts =>
          cases mixStep stepped with
          | aborts more => omega
  · intro i thread finished
    have mixing := mixing_of_reachable reachable i
    rw [finished] at mixing
    obtain ⟨m, iterated, rfl⟩ := mixing
    rw [total, Int.toNat_natCast] at iterated
    obtain ⟨reads, writes, done⟩ := counts iterated
    obtain ⟨counted, message⟩ := iterated.leave
    refine ⟨counted.trans (iterated.tallied.done.symm.trans done), m.found,
      reads ▸ iterated.tallied.found, ?_⟩
    rw [message, reads, writes, total]
  · intro usable initial puts size fits divides
    exact mix_completes size fits divides puts n initial

/-- Three gets in ten: of 250 operations of each of two threads, 90 are gets. -/
theorem readRandomWriteRandom_mix_thirty
    : ∃ s, Reachable System.step
        (System.init
          (readRandomWriteRandom ⟨7, 250, 2, 16, 100⟩ (.reset ⟨7, 250, 2, 16, 100⟩)
            (mapKV (· < maxValLen)) 30) 2 ∅) s
      ∧ ∀ i, ∃ thread found, s.phases i = .finished thread ∧ thread.stats.done = 250
        ∧ thread.stats.message = mixMessage 90 160 250 found := by
  obtain ⟨runs, completes⟩ := readRandomWriteRandom_mix ⟨7, 250, 2, 16, 100⟩
    (.reset ⟨7, 250, 2, 16, 100⟩) (mapKV (· < maxValLen)) 30 250 (by decide) rfl 2 ∅
  have complete := completes (fun _ => True) trivial (fun _ _ _ _ => ⟨rfl, trivial⟩) (by decide)
    (by decide) (by decide)
  obtain ⟨s, reachable, finished⟩ := complete.completable _ (.refl _ _)
  obtain ⟨threads, returned, _⟩ := finished.returned (.of_reachable reachable)
  refine ⟨s, reachable, fun i => ?_⟩
  obtain ⟨done, found, _, message⟩ := (runs s reachable).2 i (threads i) (returned i)
  exact ⟨threads i, found, returned i, done, message⟩

/-- Every accepted `readwritepercent`: the gets and puts that a thread prints at its end add
up to the total it prints exactly for a percentage, or when the run is over before the
weights of the first filling are used up. Its statistics count the same operations. In those
cases every iteration of every thread is one get or one put of the key it has drawn.
-/
theorem readRandomWriteRandom_total_iff {Store : Type} (flags : Flags) (bm : Benchmark)
    (kv : KV Store) {percent : Int} (low : -2 ^ 31 ≤ percent) (high : percent < 2 ^ 31)
    (N : Nat) (total : readwrites flags = N) {n : Nat} {store : Store}
    {s : System (readRandomWriteRandom flags bm kv percent) n}
    (reachable : Reachable System.step
      (System.init (readRandomWriteRandom flags bm kv percent) n store) s)
    {i : Fin n} {thread : ThreadState} (finished : s.phases i = .finished thread)
    : ∃ reads writes found,
        thread.stats.message = mixMessage reads writes N found
        ∧ thread.stats.done = reads + writes
        ∧ (reads + writes = N
          ↔ (0 ≤ percent ∧ percent ≤ 100)
            ∨ (N : Int) ≤ max percent 0 + max (toInt32 (100 - percent)) 0)
        ∧ (reads + writes = N
          → ∀ before, Reachable System.step
              (System.init (readRandomWriteRandom flags bm kv percent) n store) before
            → ∀ (j : Fin n) (m next : MixState) after, before.phases j = .running m
              → (readRandomWriteRandom flags bm kv percent).step before.shared m before.store
                = .continues next after
              → m.Gets kv (m.drawKey flags bm).key next before.store after
                ∨ m.Puts kv (m.drawKey flags bm).key (m.gen.generate bm.valueSize.toNat).1 next
                    before.store after) := by
  have mixing := mixing_of_reachable reachable i
  rw [finished] at mixing
  obtain ⟨m, iterated, rfl⟩ := mixing
  rw [total, Int.toNat_natCast] at iterated
  obtain ⟨done, message⟩ := iterated.leave
  have exact_iff := Mix.after_total_iff low high N
  rw [← iterated.mix] at exact_iff
  refine ⟨m.readsDone, m.writesDone, m.found, total ▸ message, done, exact_iff, ?_⟩
  intro all before reached j now next after running stepped
  exact mix_calls low high total (exact_iff.mp all) reached running stepped

/-- A hundred operations with a percentage of 150 end before the weight of gets. -/
theorem readRandomWriteRandom_total_of_short_run
    : ∃ s, Reachable System.step
        (System.init
          (readRandomWriteRandom ⟨7, 100, 1, 16, 100⟩ (.reset ⟨7, 100, 1, 16, 100⟩)
            (mapKV (· < maxValLen)) 150) 1 ∅) s
      ∧ ∃ thread, s.phases 0 = .finished thread ∧ thread.stats.done = 100 := by
  obtain ⟨s, reachable, finished⟩ := mix_finishes ⟨7, 100, 1, 16, 100⟩
    (.reset ⟨7, 100, 1, 16, 100⟩) (· < maxValLen) (by decide) (by decide) (by decide) 150 1
  obtain ⟨thread, returned⟩ := finished 0
  obtain ⟨reads, writes, found, _, done, exact_iff, _⟩ :=
    readRandomWriteRandom_total_iff _ _ _ (by decide) (by decide) 100 rfl reachable returned
  exact ⟨s, reachable, thread, returned, done.trans (exact_iff.mpr (.inr (by decide)))⟩

/-- A percentage of 101 leaves the weight of puts at minus one: after 101 gets the last of
102 iterations does nothing.
-/
theorem readRandomWriteRandom_skips_last
    : ∃ s, Reachable System.step
        (System.init
          (readRandomWriteRandom ⟨7, 102, 1, 16, 100⟩ (.reset ⟨7, 102, 1, 16, 100⟩)
            (mapKV (· < maxValLen)) 101) 1 ∅) s
      ∧ ∃ thread found, s.phases 0 = .finished thread ∧ thread.stats.done = 101
        ∧ thread.stats.message = mixMessage 101 0 102 found := by
  obtain ⟨s, reachable, finished⟩ := mix_finishes ⟨7, 102, 1, 16, 100⟩
    (.reset ⟨7, 102, 1, 16, 100⟩) (· < maxValLen) (by decide) (by decide) (by decide) 101 1
  obtain ⟨thread, returned⟩ := finished 0
  have mixing := mixing_of_reachable reachable 0
  rw [returned] at mixing
  obtain ⟨m, iterated, rfl⟩ := mixing
  obtain ⟨done, message⟩ := iterated.leave
  have minus : toInt32 (100 - 101) = -1 := by decide
  have stalling := Mix.after_stalling minus (.inr (by decide)) 102
  rw [← show m.mix = Mix.after 101 102 from iterated.mix] at stalling
  have total : (m.readsDone + m.writesDone : Int) = 101 := stalling.total
  have writes : (m.writesDone : Int) ≤ 0 := stalling.writes
  rw [show m.readsDone = 101 by omega, show m.writesDone = 0 by omega] at done message
  exact ⟨s, reachable, _, m.found, returned, done, message⟩

end PMKVLab.Bench
