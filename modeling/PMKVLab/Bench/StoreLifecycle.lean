import PMKVLab.Bench.Operations
import PMKVLab.Library.Programs
import PMKVLab.Store.TableEngine

/-! `Benchmark::Run` around the benchmarks: how the list of names is split, when the store
is closed, removed, created and opened, and on what contents each benchmark starts. What
the calls do is kept in a trace.
-/

namespace PMKVLab.Bench

open PMKVLab.Library PMKVLab.Store

/-- The flags that say where the pool is and how large a new one is. -/
structure PoolFlags where
  db : String
  dbSizeInGb : Int
deriving DecidableEq, Repr

/-- The argument of the constructor, in unsigned 64-bit arithmetic. -/
def PoolFlags.size (pool : PoolFlags) : Nat := toUInt64 (1024 * 1024 * 1024 * pool.dbSizeInGb)

/-- The member functions `Run` points `method` at. -/
inductive MethodName
  | writeSeq
  | writeRandom
  | readSeq
  | readRandom
  | readMissing
  | deleteSeq
  | deleteRandom
  | readWhileWriting
  | readRandomWriteRandom
deriving DecidableEq, Repr

/-- What `Run` decides from a name; an unknown or empty name selects no method. -/
structure Selection where
  method : Option MethodName
  freshDb : Bool
  numThreads : Int
deriving DecidableEq, Repr

def select (threads : Int) (name : List Char) : Selection :=
  if name = "fillseq".toList then ⟨some .writeSeq, true, threads⟩
  else if name = "fillrandom".toList then ⟨some .writeRandom, true, threads⟩
  else if name = "overwrite".toList then ⟨some .writeRandom, false, threads⟩
  else if name = "readseq".toList then ⟨some .readSeq, false, threads⟩
  else if name = "readrandom".toList then ⟨some .readRandom, false, threads⟩
  else if name = "readmissing".toList then ⟨some .readMissing, false, threads⟩
  else if name = "deleteseq".toList then ⟨some .deleteSeq, false, threads⟩
  else if name = "deleterandom".toList then ⟨some .deleteRandom, false, threads⟩
  else if name = "readwhilewriting".toList then ⟨some .readWhileWriting, false, threads + 1⟩
  else if name = "readrandomwriterandom".toList then
    ⟨some .readRandomWriteRandom, false, threads⟩
  else ⟨none, false, threads⟩

/-- The two benchmarks that ask for a fresh store. -/
def Fills (name : List Char) : Prop := name = "fillseq".toList ∨ name = "fillrandom".toList

instance (name : List Char) : Decidable (Fills name) :=
  inferInstanceAs (Decidable (_ ∨ _))

/-- A fill selects a method and a fresh store. -/
theorem select_of_fills {name : List Char} (fills : Fills name) (threads : Int)
    : ∃ method, select threads name = ⟨some method, true, threads⟩ := by
  rcases fills with rfl | rfl
  · exact ⟨.writeSeq, rfl⟩
  · exact ⟨.writeRandom, rfl⟩

theorem freshDb_ite {condition : Prop} [Decidable condition] {one other : Selection}
    (first : one.freshDb = false) (later : other.freshDb = false)
    : (if condition then one else other).freshDb = false := by
  split
  · exact first
  · exact later

theorem select_of_not_fills {name : List Char} (other : ¬ Fills name) (threads : Int)
    : (select threads name).freshDb = false := by
  obtain ⟨notSeq, notRandom⟩ := not_or.mp other
  rw [select, if_neg notSeq, if_neg notRandom]
  -- one step for each other name of the chain
  exact freshDb_ite rfl <| freshDb_ite rfl <| freshDb_ite rfl <| freshDb_ite rfl <|
    freshDb_ite rfl <| freshDb_ite rfl <| freshDb_ite rfl <| freshDb_ite rfl rfl

-----------------------------------------------------------------------------------------
-- The calls of `RunBenchmark`
-----------------------------------------------------------------------------------------

/-- `num_threads` of a selected method. -/
def MethodName.numThreads (threads : Int) : MethodName → Int
  | .readWhileWriting => threads + 1
  | _ => threads

/-- The benchmarks of the usage text, with the member function of each. -/
def benchmarkMethods : List (String × MethodName) :=
  [("fillseq", .writeSeq), ("fillrandom", .writeRandom), ("overwrite", .writeRandom),
    ("readseq", .readSeq), ("readrandom", .readRandom), ("readmissing", .readMissing),
    ("deleteseq", .deleteSeq), ("deleterandom", .deleteRandom),
    ("readwhilewriting", .readWhileWriting), ("readrandomwriterandom", .readRandomWriteRandom)]

/-- The names that select a method. -/
def benchmarkNames : List String := benchmarkMethods.map Prod.fst

/-- A name for which `Run` has no method; the empty name is one. -/
def Unknown (name : List Char) : Prop := name ∉ benchmarkNames.map String.toList

theorem select_of_unknown {name : List Char} (unknown : Unknown name) (threads : Int)
    : select threads name = ⟨none, false, threads⟩ := by
  simp only [Unknown, benchmarkNames, benchmarkMethods, List.map_cons, List.map_nil,
    List.mem_cons, not_or] at unknown
  simp only [select, unknown, if_false]

/-- The arguments of `RunBenchmark`. -/
structure Call where
  numThreads : Int
  name : List Char
  method : MethodName
deriving DecidableEq, Repr

/-- The call that a name asks for: its member function on `FLAGS_threads` threads, and on one
more for the writer in the background.
-/
def listedCall (threads : Int) (name : List Char) : Option Call :=
  (benchmarkMethods.find? fun listed => listed.1.toList = name).map fun listed =>
    ⟨listed.2.numThreads threads, name, listed.2⟩

/-- The call that `Run` makes once it has looked up a name. -/
def Selection.call (name : List Char) (selection : Selection) : Option Call :=
  selection.method.map fun method => ⟨selection.numThreads, name, method⟩

/-- The chain of comparisons selects what the list has, one case per name. -/
theorem select_call (threads : Int) (name : List Char)
    : (select threads name).call name = listedCall threads name := by
  by_cases known : name ∈ benchmarkNames.map String.toList
  · simp only [benchmarkNames, benchmarkMethods, List.map_cons, List.map_nil, List.mem_cons,
      List.not_mem_nil, or_false] at known
    rcases known with rfl | rfl | rfl | rfl | rfl | rfl | rfl | rfl | rfl | rfl <;> rfl
  · have absent : benchmarkMethods.find? (fun listed => listed.1.toList = name) = none := by
      refine List.find?_eq_none.mpr fun listed member same => known ?_
      rw [← of_decide_eq_true same]
      exact List.mem_map_of_mem (List.mem_map_of_mem member)
    rw [select_of_unknown known, listedCall, absent]
    rfl

-----------------------------------------------------------------------------------------
-- The process and its trace
-----------------------------------------------------------------------------------------

/-- What `Run` does, in the order in which it does it. A call of `RunBenchmark` is kept with
`kv_` and the engine's state at its start and the state it leaves, which is `none` when it
does not return.
-/
inductive StoreEvent (E : Engine)
  | removed (path : String)
  | opened (create : Bool) (kv : Option E.Db)
  | closed (kv : Option E.Db)
  | called (call : Call) (kv : Option (PMKVWrapper E)) (start : E.State)
      (left : Option E.State)

/-- What `Run` calls: `std::remove`, and `RunBenchmark` on the store behind `kv_`. The same
call may go differently later on, so it is given what has happened before.
-/
structure Outside (E : Engine) where
  remove (path : String) (state : E.State) : E.State
  runBenchmark (history : List (StoreEvent E)) (call : Call) (kv : Option (PMKVWrapper E))
    (state : E.State)
    : Option E.State

structure Process (E : Engine) where
  kv : Option (PMKVWrapper E)
  engine : E.State
  trace : List (StoreEvent E)

/-- The constructor of `Benchmark` leaves `kv_` null. -/
def Process.start {E : Engine} (state : E.State) : Process E := ⟨none, state, []⟩

/-- Why the process ends early: an exception nobody catches, or a benchmark that does not
return.
-/
inductive Stop
  | thrown (what : String)
  | exited
deriving DecidableEq, Repr

abbrev Running (E : Engine) := Program Stop (Process E)

section Run

variable {E : Engine} (outside : Outside E) (pool : PoolFlags) (threads : Int)

/-- `delete kv_`, after which no store is open. -/
def deleteKv : Running E Unit :=
  .modify fun p =>
    match p.kv with
    | none => p
    | some wrapper => ⟨none, wrapper.destroy p.engine, p.trace ++ [.closed wrapper.kv]⟩

def removeDb : Running E Unit :=
  .modify fun p =>
    { p with
      engine := outside.remove pool.db p.engine
      trace := p.trace ++ [.removed pool.db] }

def removeWhen (condition : Bool) : Running E Unit :=
  if condition then removeDb outside pool else pure ()

def newWrapper (create : Bool) : Running E Unit := fun p =>
  match Harness.bench.construct E pool.db pool.size create p.engine with
  | (.error what, next) => (.error (.thrown what), { p with engine := next })
  | (.ok wrapper, next) =>
      (.ok (), ⟨some wrapper, next, p.trace ++ [.opened create wrapper.kv]⟩)

/-- `Open`: a fresh store's file is removed here too, whatever its size. -/
def openStore (freshDb : Bool) : Running E Unit := do
  removeWhen outside pool freshDb
  newWrapper pool freshDb

/-- Before a benchmark with a fresh store the old one is closed and removed. -/
def discard (freshDb : Bool) : Running E Unit :=
  if freshDb then do
    deleteKv
    removeWhen outside pool (0 < pool.dbSizeInGb)
  else pure ()

def openIfNull (freshDb : Bool) : Running E Unit := do
  let kv ← .gets (·.kv)
  if kv.isNone then openStore outside pool freshDb else pure ()

def callMethod (call : Call) : Running E Unit := fun p =>
  let left := outside.runBenchmark p.trace call p.kv p.engine
  let trace := p.trace ++ [.called call p.kv p.engine left]
  match left with
  | none => (.error .exited, { p with trace := trace })
  | some next => (.ok (), ⟨p.kv, next, trace⟩)

def callSelected (name : List Char) (selection : Selection) : Running E Unit :=
  match selection.method with
  | none => pure ()
  | some method => callMethod outside ⟨selection.numThreads, name, method⟩

/-- What follows in a round of the loop once the name has been looked up. -/
def runSelected (name : List Char) (selection : Selection) : Running E Unit := do
  discard outside pool selection.freshDb
  openIfNull outside pool selection.freshDb
  callSelected outside name selection

/-- One round of the loop in `Run`. -/
def runName (name : List Char) : Running E Unit :=
  runSelected outside pool name (select threads name)

/-- The text from the first occurrence of a character on. -/
def strchr : List Char → Char → Option (List Char)
  | [], _ => none
  | head :: rest, c => if head = c then some (head :: rest) else strchr rest c

theorem strchr_eq_none {text : List Char} {c : Char} (absent : strchr text c = none)
    : c ∉ text := by
  induction text with
  | nil => exact List.not_mem_nil
  | cons head rest ih =>
      unfold strchr at absent
      split at absent
      · cases absent
      · next different => simp [Ne.symm different, ih absent]

theorem strchr_eq_some {text sep : List Char} {c : Char} (found : strchr text c = some sep)
    : ∃ name rest, text = name ++ sep ∧ sep = c :: rest ∧ c ∉ name := by
  induction text with
  | nil => cases found
  | cons head tail ih =>
      unfold strchr at found
      split at found
      · next same =>
        cases found
        exact ⟨[], tail, rfl, by rw [same], List.not_mem_nil⟩
      · next different =>
        obtain ⟨name, rest, rfl, separator, absent⟩ := ih found
        refine ⟨head :: name, rest, rfl, separator, ?_⟩
        simp [Ne.symm different, absent]

theorem length_after_strchr {text sep : List Char} {c : Char}
    (found : strchr text c = some sep)
    : sep.length - 1 < text.length := by
  obtain ⟨name, rest, rfl, rfl, _⟩ := strchr_eq_some found
  simp only [List.length_append, List.length_cons]
  omega

/-- The loop of `Run`, from the part of the list that is still to be done. -/
def runFrom (benchmarks : List Char) : Running E Unit :=
  match found : strchr benchmarks ',' with
  | none => runName outside pool threads benchmarks
  | some sep =>
      have := length_after_strchr found
      do
        runName outside pool threads (benchmarks.take (benchmarks.length - sep.length))
        runFrom sep.tail
termination_by benchmarks.length

/-- A `Benchmark` object from its construction to its destruction in `main`. -/
def lifetime (benchmarks : List Char) : Running E Unit := do
  runFrom outside pool threads benchmarks
  deleteKv

/-- The loop goes through the parts between the commas, by induction on the text. -/
theorem runFrom_eq_forM (benchmarks : List Char)
    : runFrom outside pool threads benchmarks
      = forM (benchmarks.splitOn ',') (runName outside pool threads) := by
  induction benchmarks using runFrom.induct with
  | case1 benchmarks absent =>
      have whole : benchmarks.splitOn ',' = [benchmarks] :=
        List.splitOnP_eq_singleton fun c member => by
          have different : c ≠ ',' := fun same => strchr_eq_none absent (same ▸ member)
          simpa using different
      unfold runFrom
      rw [whole]
      split
      · simp
      · next found => rw [absent] at found; cases found
  | case2 benchmarks sep found _ ih =>
      obtain ⟨name, rest, rfl, rfl, absent⟩ := strchr_eq_some found
      have first : (name ++ ',' :: rest).splitOn ',' = name :: rest.splitOn ',' :=
        List.splitOnP_append_cons_of_forall_mem
          (fun c member => by
            have different : c ≠ ',' := fun same => absent (same ▸ member)
            simpa using different)
          ',' (by simp) rest
      have taken : (name ++ ',' :: rest).take
          ((name ++ ',' :: rest).length - (',' :: rest).length) = name := by
        simp
      unfold runFrom
      rw [first, List.forM_cons]
      split
      · next none => rw [found] at none; cases none
      · next again =>
        rw [found] at again
        cases again
        rw [taken, ih, List.tail_cons]

end Run

-----------------------------------------------------------------------------------------
-- What a trace shows
-----------------------------------------------------------------------------------------

section Traces

variable {E : Engine}

/-- The calls of `RunBenchmark`, in order. -/
def calls (trace : List (StoreEvent E)) : List Call :=
  trace.filterMap fun
    | .called call _ _ _ => some call
    | _ => none

/-- What these calls have left. -/
def leftStates (trace : List (StoreEvent E)) : List (Option E.State) :=
  trace.filterMap fun
    | .called _ _ _ left => some left
    | _ => none

def openedHandles (trace : List (StoreEvent E)) : List (Option E.Db) :=
  trace.filterMap fun
    | .opened _ kv => some kv
    | _ => none

def closedHandles (trace : List (StoreEvent E)) : List (Option E.Db) :=
  trace.filterMap fun
    | .closed kv => some kv
    | _ => none

/-- An event without a handle leaves both lists alone. -/
theorem handles_snoc {trace : List (StoreEvent E)} {event : StoreEvent E}
    {live : List (Option E.Db)} (opens : openedHandles [event] = [])
    (closes : closedHandles [event] = [])
    (handles : openedHandles trace = closedHandles trace ++ live)
    : openedHandles (trace ++ [event]) = closedHandles (trace ++ [event]) ++ live := by
  have opened : openedHandles (trace ++ [event]) = openedHandles trace := by
    rw [openedHandles, List.filterMap_append, ← openedHandles, ← openedHandles, opens,
      List.append_nil]
  have closed : closedHandles (trace ++ [event]) = closedHandles trace := by
    rw [closedHandles, List.filterMap_append, ← closedHandles, ← closedHandles, closes,
      List.append_nil]
  rw [opened, closed, handles]

theorem handles_snoc_idle {trace : List (StoreEvent E)} {event : StoreEvent E}
    (opens : openedHandles [event] = []) (closes : closedHandles [event] = [])
    (equal : openedHandles trace = closedHandles trace)
    : openedHandles (trace ++ [event]) = closedHandles (trace ++ [event]) := by
  rw [← List.append_nil (closedHandles trace)] at equal
  rw [handles_snoc opens closes equal, List.append_nil]

/-- After an opening one handle is left to close. -/
theorem handles_snoc_opened {trace : List (StoreEvent E)}
    (equal : openedHandles trace = closedHandles trace) (create : Bool) (kv : Option E.Db)
    : openedHandles (trace ++ [.opened create kv])
      = closedHandles (trace ++ [.opened create kv]) ++ [kv] := by
  simp only [openedHandles, closedHandles] at equal
  simp [openedHandles, closedHandles, equal]

/-- Closing the last handle leaves none. -/
theorem handles_snoc_closed {trace : List (StoreEvent E)} {kv : Option E.Db}
    (last : openedHandles trace = closedHandles trace ++ [kv])
    : openedHandles (trace ++ [.closed kv]) = closedHandles (trace ++ [.closed kv]) := by
  simp only [openedHandles, closedHandles] at last
  simp [openedHandles, closedHandles, last]

variable (outside : Outside E) (V : E.View) (path : String)

/-- The benchmark before has returned, and the pool holds what it has left. -/
def ContinuesLast (before : List (StoreEvent E)) (state : E.State) : Prop :=
  ∀ last, (leftStates before).getLast? = some last
    → ∃ left, last = some left ∧ V.pools state path = V.pools left path

/-- A fill starts on an empty store created just before; any other benchmark starts on the
contents the benchmark before it has left.
-/
def StartsOn (before : List (StoreEvent E)) (name : List Char) (kv : Option (PMKVWrapper E))
    (state : E.State) : Prop :=
  if Fills name then
    (∃ earlier, before = earlier ++ [.opened true (kv.bind (·.kv))])
    ∧ V.pools state path = some ∅
  else ContinuesLast V path before state

/-- What may follow a trace: a store is opened when none is open, closed when it is the open
one, and a benchmark is run on an open store with the contents it should have.
-/
def Allowed (before : List (StoreEvent E)) : StoreEvent E → Prop
  | .removed _ => True
  | .opened _ _ => openedHandles before = closedHandles before
  | .closed kv => openedHandles before = closedHandles before ++ [kv]
  | .called call kv state left =>
      (∃ db contents, kv = some ⟨some db⟩ ∧ V.Live state db path contents)
      ∧ StartsOn V path before call.name kv state
      ∧ left = outside.runBenchmark before call kv state

/-- Every event of the trace was allowed where it happened. -/
def Proper (trace : List (StoreEvent E)) : Prop :=
  ∀ before event after, trace = before ++ event :: after → Allowed outside V path before event

variable {outside V path}

theorem Proper.nil : Proper outside V path [] := by
  intro before event after empty
  simp at empty

theorem Proper.snoc {trace : List (StoreEvent E)} {event : StoreEvent E}
    (proper : Proper outside V path trace) (allowed : Allowed outside V path trace event)
    : Proper outside V path (trace ++ [event]) := by
  intro before last after split
  rcases List.eq_nil_or_concat' after with rfl | ⟨inner, final, rfl⟩
  · obtain ⟨rfl, same⟩ := List.append_inj' split rfl
    cases same
    exact allowed
  · rw [← List.cons_append, ← List.append_assoc] at split
    exact proper before last inner (List.append_inj' split rfl).1

/-- At every point of a proper trace the closed handles are the opened ones in order, up to
at most one that is still open. The last event decides.
-/
theorem Proper.atMostOne {trace part : List (StoreEvent E)}
    (proper : Proper outside V path trace) (isPart : part <+: trace)
    : ∃ live, openedHandles part = closedHandles part ++ live ∧ live.length ≤ 1 := by
  obtain ⟨rest, rfl⟩ := isPart
  induction part using List.reverseRecOn generalizing rest with
  | nil => exact ⟨[], rfl, Nat.zero_le 1⟩
  | append_singleton before event ih =>
      rw [List.append_assoc] at proper
      obtain ⟨live, handles, few⟩ := ih _ proper
      have allowed := proper before event rest rfl
      cases event with
      | removed | called =>
          exact ⟨live, handles_snoc rfl rfl handles, few⟩
      | opened create kv =>
          exact ⟨[kv], handles_snoc_opened allowed create kv, Nat.le_refl 1⟩
      | closed kv =>
          refine ⟨[], ?_, Nat.zero_le 1⟩
          rw [List.append_nil]
          exact handles_snoc_closed allowed

end Traces

-----------------------------------------------------------------------------------------
-- Rules for one round
-----------------------------------------------------------------------------------------

section Rounds

variable {E : Engine} {outside : Outside E} {pool : PoolFlags} {threads : Int}
    {name : List Char} {before closed ready after failed : Process E → Prop}

/-- `Open` is called when no store is open. -/
theorem openIfNull_meets {freshDb : Bool}
    (opens : (openStore outside pool freshDb).Meets (fun p => before p ∧ p.kv = none)
      (fun _ => ready) failed)
    (stays : ∀ p, before p → p.kv.isSome = true → ready p)
    : (openIfNull outside pool freshDb).Meets before (fun _ => ready) failed := by
  refine (Program.meets_gets _).bind fun kv => ?_
  rintro p ⟨holds, read⟩
  rw [read]
  cases null : p.kv with
  | none => exact opens p ⟨holds, null⟩
  | some => exact stays p holds (by rw [null]; rfl)

/-- A fill closes the store, creates a new one and calls its method. -/
theorem runName_meets_of_fills (fills : Fills name)
    (discards : (discard outside pool true).Meets before (fun _ => closed) failed)
    (opens : (openIfNull outside pool true).Meets closed (fun _ => ready) failed)
    (calls : ∀ method,
      (callMethod outside ⟨threads, name, method⟩).Meets ready (fun _ => after) failed)
    : (runName outside pool threads name).Meets before (fun _ => after) failed := by
  obtain ⟨method, selected⟩ := select_of_fills fills threads
  rw [runName, selected]
  exact discards.bind fun _ => opens.bind fun _ => calls method

/-- Any other name opens the store if it is not open, and may have no method to call. -/
theorem runName_meets_of_not_fills (other : ¬ Fills name)
    (opens : (openIfNull outside pool false).Meets before (fun _ => ready) failed)
    (skips : ∀ p, ready p → after p)
    (calls : ∀ numThreads method,
      (callMethod outside ⟨numThreads, name, method⟩).Meets ready (fun _ => after) failed)
    : (runName outside pool threads name).Meets before (fun _ => after) failed := by
  have idle : (discard outside pool false).Meets before (fun _ => before) failed :=
    fun _ holds => holds
  unfold runName runSelected
  rw [select_of_not_fills other]
  refine idle.bind fun _ => opens.bind fun _ => ?_
  unfold callSelected
  split
  · exact skips
  · exact calls _ _

end Rounds

-----------------------------------------------------------------------------------------
-- The invariant of the loop
-----------------------------------------------------------------------------------------

/-- What `Run` relies on: removing the pool's file touches no handle, and a benchmark that
returns has worked through its handle only.
-/
structure Outside.Laws {E : Engine} (outside : Outside E) (V : E.View) (path : String)
    : Prop where
  remove (state : E.State) : V.handle (outside.remove path state) = V.handle state
  runBenchmark {history : List (StoreEvent E)} {call : Call} {db : E.Db}
    {contents : Contents} {state next : E.State}
    : V.Live state db path contents
      → outside.runBenchmark history call (some ⟨some db⟩) state = some next
      → V.handle next = V.handle state ∧ ∃ left, V.pools next path = some left

section Invariant

variable {E : Engine} (outside : Outside E) (V : E.View) (path : String)

/-- `kv_` is null, no handle is live and all opened handles are closed. -/
structure NoStore (p : Process E) : Prop where
  null : p.kv = none
  closed : V.Closed p.engine
  handles : openedHandles p.trace = closedHandles p.trace

/-- `kv_` wraps the one live handle, the only one not yet closed. -/
structure HasStore (contents : Contents) (p : Process E) : Prop where
  handle : ∃ db, p.kv = some ⟨some db⟩
    ∧ V.Live p.engine db path contents
    ∧ (∀ other, other ≠ db → V.handle p.engine other = none)
    ∧ openedHandles p.trace = closedHandles p.trace ++ [some db]

/-- The invariant between two names. -/
structure Between (p : Process E) : Prop where
  proper : Proper outside V path p.trace
  store : NoStore V p ∨ ∃ contents, HasStore V path contents p
  continues : ContinuesLast V path p.trace p.engine

/-- Just before a benchmark is called. -/
structure Ready (name : List Char) (p : Process E) : Prop where
  proper : Proper outside V path p.trace
  store : ∃ contents, HasStore V path contents p
  starts : StartsOn V path p.trace name p.kv p.engine

/-- After the store has been closed. -/
structure Discarded (p : Process E) : Prop where
  proper : Proper outside V path p.trace
  store : NoStore V p

variable {outside V path}

theorem deleteKv_meets (laws : E.CmapLaws V)
    : (deleteKv : Running E Unit).Meets (Between outside V path) (fun _ => Discarded outside V path)
        (fun p => Proper outside V path p.trace) := by
  apply Program.meets_modify
  intro p between
  rcases between.store with idle | ⟨contents, db, kv, live, only, handles⟩
  · simp only [idle.null]
    exact ⟨between.proper, idle⟩
  · simp only [kv]
    obtain ⟨dead, others, _⟩ := laws.close live.1
    refine ⟨between.proper.snoc handles, rfl, ?_, ?_⟩
    · intro other
      by_cases same : other = db
      · rw [same]
        exact dead
      · exact (others other same).trans (only other same)
    · exact handles_snoc_closed handles

theorem removeWhen_meets {pool : PoolFlags}
    (laws : outside.Laws V pool.db) (condition : Bool)
    : (removeWhen outside pool condition).Meets (Discarded outside V pool.db)
        (fun _ => Discarded outside V pool.db) (fun p => Proper outside V pool.db p.trace) := by
  cases condition with
  | false => exact fun _ holds => holds
  | true =>
      apply Program.meets_modify
      intro p discarded
      refine ⟨discarded.proper.snoc trivial, discarded.store.null, ?_, ?_⟩
      · intro db
        rw [laws.remove]
        exact discarded.store.closed db
      · exact handles_snoc_idle rfl rfl discarded.store.handles

/-- What the constructor does without an open store: it throws, or it has the only handle,
onto a new empty pool or onto the pool that was there.
-/
theorem newWrapper_cases (laws : E.CmapLaws V) {pool : PoolFlags} (create : Bool)
    {p : Process E} (idle : NoStore V p)
    : (∃ what next,
        (newWrapper pool create).run p = (.error (.thrown what), ⟨p.kv, next, p.trace⟩))
      ∨ ∃ kv next contents,
          (newWrapper pool create).run p
            = (.ok (), ⟨kv, next, p.trace ++ [.opened create (kv.bind (·.kv))]⟩)
          ∧ HasStore V pool.db contents
              ⟨kv, next, p.trace ++ [.opened create (kv.bind (·.kv))]⟩
          ∧ (if create then contents = ∅ else V.pools p.engine pool.db = some contents) := by
  have run : (newWrapper pool create).run p
      = match Harness.bench.construct E pool.db pool.size create p.engine with
        | (.error what, next) => (.error (.thrown what), ⟨p.kv, next, p.trace⟩)
        | (.ok wrapper, next) =>
            (.ok (), ⟨some wrapper, next, p.trace ++ [.opened create wrapper.kv]⟩) :=
    rfl
  rw [run]
  rcases constructed : Harness.bench.construct E pool.db pool.size create p.engine with
    ⟨what | wrapper, next⟩
  · exact .inl ⟨what, next, rfl⟩
  · obtain ⟨db, contents, rfl, live, only, found⟩ :=
      Harness.bench_construct_ok laws idle.closed constructed
    refine .inr ⟨some ⟨some db⟩, next, contents, rfl, ⟨db, rfl, live, only, ?_⟩, found⟩
    exact handles_snoc_opened idle.handles create (some db)

/-- A created store is empty. -/
theorem newWrapper_create_meets (laws : E.CmapLaws V) {pool : PoolFlags} {name : List Char}
    (fills : Fills name)
    : (newWrapper pool true).Meets (Discarded outside V pool.db)
        (fun _ => Ready outside V pool.db name)
        (fun p => Proper outside V pool.db p.trace) := by
  intro p discarded
  rcases newWrapper_cases laws true discarded.store with
    ⟨what, next, failed⟩ | ⟨kv, next, contents, opened, store, empty⟩
  · rw [failed]
    exact discarded.proper
  · rw [opened]
    refine ⟨discarded.proper.snoc discarded.store.handles, ⟨contents, store⟩, ?_⟩
    obtain ⟨_, _, live, _⟩ := store
    rw [StartsOn, if_pos fills, live.2]
    exact ⟨⟨_, rfl⟩, congrArg some empty⟩

/-- An existing store is opened as it is. -/
theorem newWrapper_existing_meets (laws : E.CmapLaws V) {pool : PoolFlags}
    : (newWrapper pool false).Meets
        (fun p => Between outside V pool.db p ∧ p.kv = none)
        (fun _ p => Between outside V pool.db p ∧ p.kv.isSome = true)
        (fun p => Proper outside V pool.db p.trace) := by
  intro p ⟨between, null⟩
  have idle : NoStore V p := by
    rcases between.store with idle | ⟨_, _, kv, _⟩
    · exact idle
    · rw [null] at kv
      cases kv
  rcases newWrapper_cases laws false idle with
    ⟨what, next, failed⟩ | ⟨kv, next, contents, opened, store, same⟩
  · rw [failed]
    exact between.proper
  · rw [opened]
    refine ⟨⟨between.proper.snoc idle.handles, .inr ⟨contents, store⟩, ?_⟩, ?_⟩
    · obtain ⟨_, _, live, _⟩ := store
      intro last found
      obtain ⟨left, returned, contents⟩ :=
        between.continues last (by simpa [leftStates] using found)
      exact ⟨left, returned, live.2.trans (Eq.symm same |>.trans contents)⟩
    · obtain ⟨_, kv, _⟩ := store
      exact Option.isSome_of_eq_some kv

/-- A call that is allowed leaves the invariant between two names. -/
theorem callMethod_meets (laws : outside.Laws V path) (call : Call)
    : (callMethod outside call).Meets (Ready outside V path call.name)
        (fun _ => Between outside V path) (fun p => Proper outside V path p.trace) := by
  intro p ready
  obtain ⟨proper, ⟨contents, db, kv, live, only, handles⟩, starts⟩ := ready
  have called : Proper outside V path (p.trace ++ [.called call p.kv p.engine
      (outside.runBenchmark p.trace call p.kv p.engine)]) :=
    proper.snoc ⟨⟨db, contents, kv, live⟩, starts, rfl⟩
  simp only [callMethod, Program.run]
  rcases ran : outside.runBenchmark p.trace call p.kv p.engine with _ | next
  · rw [ran] at called
    exact called
  · rw [ran] at called
    rw [kv] at ran
    obtain ⟨sameHandles, left, pool⟩ := laws.runBenchmark live ran
    refine ⟨called, .inr ⟨left, db, kv, ⟨?_, pool⟩, ?_, ?_⟩, ?_⟩
    · rw [sameHandles]
      exact live.1
    · rw [sameHandles]
      exact only
    · exact handles_snoc rfl rfl handles
    · intro last found
      have returned : some next = last := by simpa [leftStates] using found
      exact ⟨next, returned.symm, rfl⟩

/-- A name that does not fill is called on the store that is there. -/
theorem Between.ready {p : Process E} (between : Between outside V path p)
    (store : p.kv.isSome = true)
    {name : List Char} (other : ¬ Fills name)
    : Ready outside V path name p := by
  refine ⟨between.proper, ?_, ?_⟩
  · rcases between.store with idle | has
    · rw [idle.null] at store
      cases store
    · exact has
  · rw [StartsOn, if_neg other]
    exact between.continues

/-- One round of the loop keeps the invariant: a fill goes through a closed store and a new
one, any other name opens the store if it is not open.
-/
theorem runName_meets (laws : E.CmapLaws V) {pool : PoolFlags}
    (outer : outside.Laws V pool.db) (threads : Int) (name : List Char)
    : (runName outside pool threads name).Meets (Between outside V pool.db)
        (fun _ => Between outside V pool.db) (fun p => Proper outside V pool.db p.trace) := by
  by_cases fills : Fills name
  · have created : (openStore outside pool true).Meets (Discarded outside V pool.db)
        (fun _ => Ready outside V pool.db name) (fun p => Proper outside V pool.db p.trace) :=
      (removeWhen_meets outer true).bind fun _ => newWrapper_create_meets laws fills
    have opened : (openIfNull outside pool true).Meets (Discarded outside V pool.db)
        (fun _ => Ready outside V pool.db name) (fun p => Proper outside V pool.db p.trace) := by
      refine openIfNull_meets (created.weaken (fun _ holds => holds.1) fun _ _ ready => ready) ?_
      intro p discarded isOpen
      rw [discarded.store.null] at isOpen
      cases isOpen
    exact runName_meets_of_fills fills
      ((deleteKv_meets laws).bind fun _ => removeWhen_meets outer _) opened
      fun method => callMethod_meets outer ⟨threads, name, method⟩
  · refine runName_meets_of_not_fills fills
      (openIfNull_meets (newWrapper_existing_meets laws) fun _ between isOpen =>
        ⟨between, isOpen⟩) (fun _ holds => holds.1) fun numThreads method => ?_
    exact (callMethod_meets outer ⟨numThreads, name, method⟩).weaken
      (fun _ holds => holds.1.ready holds.2 fills) fun _ _ between => between

end Invariant

-----------------------------------------------------------------------------------------
-- Removals and calls
-----------------------------------------------------------------------------------------

section Ignored

variable {E : Engine}

/-- A property of traces that closing and opening do not affect. -/
structure Ignores (holds : List (StoreEvent E) → Prop) : Prop where
  opened {trace : List (StoreEvent E)} (create : Bool) (kv : Option E.Db)
    : holds trace → holds (trace ++ [.opened create kv])
  closed {trace : List (StoreEvent E)} (kv : Option E.Db)
    : holds trace → holds (trace ++ [.closed kv])

/-- Nor do the calls. -/
structure IgnoresCalls (holds : List (StoreEvent E) → Prop) : Prop extends Ignores holds where
  called {trace : List (StoreEvent E)} (call : Call) (kv : Option (PMKVWrapper E))
    (start : E.State) (left : Option E.State)
    : holds trace → holds (trace ++ [.called call kv start left])

variable {holds : List (StoreEvent E) → Prop} (outside : Outside E) (pool : PoolFlags)

theorem deleteKv_keeps (ignores : Ignores holds)
    : (deleteKv : Running E Unit).Keeps (fun p => holds p.trace) := by
  intro p kept
  simp only [deleteKv, Program.run_modify]
  split
  · exact kept
  · exact ignores.closed _ kept

theorem newWrapper_keeps (ignores : Ignores holds) (create : Bool)
    : (newWrapper pool create : Running E Unit).Keeps (fun p => holds p.trace) := by
  intro p kept
  simp only [newWrapper, Program.run]
  split
  · exact kept
  · exact ignores.opened _ _ kept

/-- A call is one more event, whether or not it returns. -/
theorem callMethod_trace (call : Call) (p : Process E)
    : ((callMethod outside call).run p).2.trace
      = p.trace ++ [.called call p.kv p.engine
          (outside.runBenchmark p.trace call p.kv p.engine)] := by
  simp only [callMethod, Program.run]
  cases outside.runBenchmark p.trace call p.kv p.engine with
  | none => rfl
  | some next => rfl

theorem callMethod_keeps (ignores : IgnoresCalls holds) (call : Call)
    : (callMethod outside call).Keeps (fun p => holds p.trace) := by
  intro p kept
  rw [callMethod_trace]
  exact ignores.called _ _ _ _ kept

section Fresh

variable {freshDb : Bool}
    (removed : freshDb = true → ∀ {trace}, holds trace → holds (trace ++ [.removed pool.db]))

include removed

theorem removeWhen_keeps (fresh : freshDb = true) (condition : Bool)
    : (removeWhen outside pool condition).Keeps (fun p => holds p.trace) := by
  cases condition with
  | false => exact Program.keeps_pure ()
  | true => exact fun p kept => removed fresh kept

theorem discard_keeps (ignores : Ignores holds)
    : (discard outside pool freshDb).Keeps (fun p => holds p.trace) := by
  unfold discard
  split
  · next fresh =>
    exact (deleteKv_keeps ignores).bind fun _ => removeWhen_keeps outside pool removed fresh _
  · exact Program.keeps_pure ()

theorem openIfNull_keeps (ignores : Ignores holds)
    : (openIfNull outside pool freshDb).Keeps (fun p => holds p.trace) := by
  refine Program.Keeps.bind (fun _ kept => kept) fun kv => ?_
  split
  · refine Program.Keeps.bind ?_ fun _ => newWrapper_keeps pool ignores _
    cases fresh : freshDb with
    | true => exact removeWhen_keeps outside pool removed fresh true
    | false => exact Program.keeps_pure ()
  · exact Program.keeps_pure ()

end Fresh

/-- A round keeps the property if removals do, and without a fresh store it removes nothing. -/
theorem runName_keeps (ignores : IgnoresCalls holds) {threads : Int} {name : List Char}
    (removed : (select threads name).freshDb = true
      → ∀ {trace}, holds trace → holds (trace ++ [.removed pool.db]))
    : (runName outside pool threads name).Keeps (fun p => holds p.trace) := by
  refine (discard_keeps outside pool removed ignores.toIgnores).bind fun _ =>
    (openIfNull_keeps outside pool removed ignores.toIgnores).bind fun _ => ?_
  unfold callSelected
  split
  · exact Program.keeps_pure ()
  · exact callMethod_keeps outside ignores _

/-- The calls do not depend on the store. -/
theorem ignores_calls (made : List Call)
    : Ignores (fun trace : List (StoreEvent E) => calls trace = made) where
  opened create kv same := by simpa [calls] using same
  closed kv same := by simpa [calls] using same

/-- A round that is not stopped makes the call listed for its name, if there is one. -/
theorem runName_calls (threads : Int) (name : List Char) (made : List Call)
    : (runName outside pool threads name).Meets (fun p => calls p.trace = made)
        (fun _ p => calls p.trace = made ++ (listedCall threads name).toList)
        (fun p => calls p.trace <+: made ++ (listedCall threads name).toList) := by
  have removed {trace : List (StoreEvent E)} (same : calls trace = made)
      : calls (trace ++ [.removed pool.db]) = made := by
    simpa [calls] using same
  have prepares {program : Running E Unit} (kept : program.Keeps (fun p => calls p.trace = made))
      : program.Meets (fun p => calls p.trace = made) (fun _ p => calls p.trace = made)
          (fun p => calls p.trace <+: made ++ (listedCall threads name).toList) :=
    kept.meets.raises fun _ same => same ▸ List.prefix_append _ _
  have called : (callSelected outside name (select threads name)).Meets
      (fun p => calls p.trace = made)
      (fun _ p => calls p.trace = made ++ (listedCall threads name).toList)
      (fun p => calls p.trace <+: made ++ (listedCall threads name).toList) := by
    rw [← select_call]
    unfold callSelected Selection.call
    cases (select threads name).method with
    | none => exact fun p same => same.trans (List.append_nil made).symm
    | some method =>
        intro p same
        have added : calls ((callMethod outside
              ⟨(select threads name).numThreads, name, method⟩).run p).2.trace
            = made ++ [⟨(select threads name).numThreads, name, method⟩] := by
          rw [callMethod_trace, ← same]
          simp [calls]
        revert added
        dsimp only
        rcases (callMethod outside ⟨(select threads name).numThreads, name, method⟩).run p
          with ⟨stop | _, after⟩
        · exact fun added => added ▸ List.prefix_rfl
        · exact fun added => added
  exact (prepares (discard_keeps outside pool (fun _ {_} => removed) (ignores_calls made))).bind
    fun _ => (prepares (openIfNull_keeps outside pool (fun _ {_} => removed)
      (ignores_calls made))).bind fun _ => called

/-- The loop makes a first part of the listed calls, and all of them when nothing stops it. By
induction on the names.
-/
theorem forM_calls (threads : Int) (names : List (List Char)) (made : List Call)
    : (forM names (runName outside pool threads) : Running E PUnit).Meets
        (fun p => calls p.trace = made)
        (fun _ p => calls p.trace = made ++ names.filterMap (listedCall threads))
        (fun p => calls p.trace <+: made ++ names.filterMap (listedCall threads)) := by
  induction names generalizing made with
  | nil => exact fun p same => same.trans (List.append_nil made).symm
  | cons name rest ih =>
      have split : made ++ (name :: rest).filterMap (listedCall threads)
          = made ++ (listedCall threads name).toList ++ rest.filterMap (listedCall threads) := by
        rw [List.append_assoc, List.filterMap_cons]
        cases listedCall threads name with
        | none => rfl
        | some call => rfl
      rw [List.forM_cons, split]
      exact ((runName_calls outside pool threads name made).raises fun _ part =>
        part.trans (List.prefix_append _ _)).bind fun _ => ih _

/-- The destructor makes no call. -/
theorem lifetime_calls (threads : Int) (benchmarks : List Char)
    : (lifetime outside pool threads benchmarks).Meets (fun p => calls p.trace = [])
        (fun _ p => calls p.trace = (benchmarks.splitOn ',').filterMap (listedCall threads))
        (fun p => calls p.trace
          <+: (benchmarks.splitOn ',').filterMap (listedCall threads)) := by
  unfold lifetime
  rw [runFrom_eq_forM]
  refine (forM_calls outside pool threads _ []).bind fun _ => ?_
  exact (deleteKv_keeps (ignores_calls _)).meets.raises fun _ same => same ▸ List.prefix_rfl

end Ignored

-----------------------------------------------------------------------------------------
-- Table engines
-----------------------------------------------------------------------------------------

/-- The table engine with files that can be removed and benchmarks that change nothing. -/
def tableOutside : Outside tableEngine where
  remove path state := { state with pools := Function.update state.pools path none }
  runBenchmark _ _ _ state := some state

theorem tableOutside_laws (path : String) : tableOutside.Laws tableView path where
  remove _ := rfl
  runBenchmark live ran := by
    cases ran
    exact ⟨rfl, _, live.2⟩

/-- An existing pool that nobody has open. -/
def existingPool (path : String) : TableState where
  pools := Function.update (fun _ => none) path (some ∅)
  handles _ := none
  next := 0

end PMKVLab.Bench
