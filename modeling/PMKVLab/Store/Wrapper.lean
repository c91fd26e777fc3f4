import PMKVLab.Store.ReferenceImplementation

/-! The C++ class `PMKVWrapper`, through which both harnesses call the C interface. The
tests (`basic_test.cc`, `recovery_test.cc`) and the benchmark (`bench.cc`) each have their
own copy: reads, removals and existence tests agree, the other three calls differ.
-/

namespace PMKVLab.Store

/-- The enumeration `pmem::kv::status`; codes the harnesses never name are kept as they
are.
-/
inductive Status
  | ok
  | unknownError
  | notFound
  | other (code : Int)
deriving DecidableEq, Repr

/-- The cast `(status)s` of a C return value. -/
def Status.ofInt (code : Int) : Status :=
  if code = pmemkvStatusOk then .ok
  else if code = pmemkvStatusUnknownError then .unknownError
  else if code = pmemkvStatusNotFound then .notFound
  else .other code

structure PMKVWrapper (E : Engine) where
  kv : Option E.Db

namespace PMKVWrapper

variable {E : Engine}

/-- `is_db_valid` of the test wrapper. -/
def isDbValid (wrapper : PMKVWrapper E) : Bool := wrapper.kv.isSome

/-- `value` is what `*value` holds before the call; it is assigned only on success. -/
def get (wrapper : PMKVWrapper E) (key value : Bytes) (state : E.State)
    : Status × Bytes :=
  let copied := pmkvGet E wrapper.kv key state
  if copied.status ≠ 0 then (.notFound, value)
  else (.ok, copied.buffer.take copied.valueSize)

def remove (wrapper : PMKVWrapper E) (key : Bytes) (state : E.State)
    : Status × E.State :=
  let (s, next) := pmkvDelete E wrapper.kv key state
  if s ≠ 0 then (.notFound, next) else (.ok, next)

def existsKey (wrapper : PMKVWrapper E) (key : Bytes) (state : E.State) : Status :=
  if pmkvExists E wrapper.kv key state = 0 then .notFound else .ok

/-- The destructor. -/
def destroy (wrapper : PMKVWrapper E) (state : E.State) : E.State :=
  pmkvClose E wrapper.kv state

end PMKVWrapper

/-- The two copies of the wrapper class. -/
inductive Harness
  | tests
  | bench
deriving DecidableEq, Repr

namespace Harness

variable {E : Engine}

/-- The test constructor keeps a null handle; the benchmark's constructor throws. -/
def construct (E : Engine) (harness : Harness) (path : String) (size : Nat)
    (create : Bool) (state : E.State)
    : Except String (PMKVWrapper E) × E.State :=
  let (kv, next) := pmkvOpen E path size (if create then 1 else 0) state
  match harness with
  | .tests => (.ok ⟨kv⟩, next)
  | .bench =>
      if kv.isNone then (.error "Failed to open kv file", next) else (.ok ⟨kv⟩, next)

/-- The tests cast the return value; the benchmark throws on any error. -/
def put (harness : Harness) (wrapper : PMKVWrapper E) (key value : Bytes)
    (state : E.State)
    : Except String Status × E.State :=
  let (s, next) := pmkvPut E wrapper.kv key value state
  match harness with
  | .tests => (.ok (Status.ofInt s), next)
  | .bench =>
      if s ≠ 0 then (.error "Failed to put with an undefined error", next)
      else (.ok .ok, next)

def countAll (harness : Harness) (wrapper : PMKVWrapper E) (cnt : Nat) (state : E.State)
    : Except String Status × Nat :=
  let (s, counted) := pmkvCountAll E wrapper.kv cnt state
  match harness with
  | .tests => (.ok (Status.ofInt s), counted)
  | .bench =>
      if s ≠ 0 then (.error "Failed to count all with an undefined error", counted)
      else (.ok .ok, counted)

end Harness

-----------------------------------------------------------------------------------------
-- The wrapper calls on a live handle
-----------------------------------------------------------------------------------------

section Live

variable {E : Engine} {V : E.View} {state : E.State} {db : E.Db} {path : String}
  {contents : Contents}

/-- A read through the wrapper returns the bound value when it fits, and otherwise leaves
the caller's string alone.
-/
theorem PMKVWrapper.get_of_live (laws : E.CmapLaws V)
    (live : V.Live state db path contents) (key value : Bytes)
    : (PMKVWrapper.mk (some db)).get key value state
      = match contents.lookup key with
        | none => (.notFound, value)
        | some found =>
            if V.fits found.length maxValLen then (.ok, found) else (.notFound, value) := by
  cases found : contents.lookup key with
  | none =>
      have failed : (pmkvGet E (some db) key state).status ≠ pmemkvStatusOk := by
        intro ok
        obtain ⟨_, bound, _⟩ := (pmkvGet_status_ok_iff laws live key).mp ok
        simp [found] at bound
      exact if_pos failed
  | some stored =>
      cases fits : V.fits stored.length maxValLen with
      | true =>
          obtain ⟨ok, copied⟩ := pmkvGet_of_fits laws live found fits
          have read : (PMKVWrapper.mk (some db)).get key value state
              = (.ok, (pmkvGet E (some db) key state).buffer.take
                  (pmkvGet E (some db) key state).valueSize) :=
            if_neg (not_not.mpr ok)
          rw [read, copied]
          simp [fits]
      | false =>
          have missed : (PMKVWrapper.mk (some db)).get key value state = (.notFound, value) :=
            if_pos (laws.getTooLong live found fits)
          rw [missed]
          simp [fits]

/-- A removal through the wrapper succeeds exactly on bound keys and unbinds only its key.
-/
theorem PMKVWrapper.remove_of_live (laws : E.CmapLaws V)
    (live : V.Live state db path contents) (key : Bytes)
    : ((PMKVWrapper.mk (some db)).remove key state).1
        = (if key ∈ contents then .ok else .notFound)
      ∧ V.Updates state ((PMKVWrapper.mk (some db)).remove key state).2 path
          (contents.erase key) := by
  obtain ⟨status, updates⟩ := laws.remove key live
  by_cases bound : key ∈ contents
  · rw [if_pos bound] at status ⊢
    have removed : (PMKVWrapper.mk (some db)).remove key state
        = (.ok, (E.pmemkvRemove (some db) key state).2) := by
      simp [PMKVWrapper.remove, pmkvDelete, status, pmemkvStatusOk]
    rw [removed]
    exact ⟨rfl, updates⟩
  · rw [if_neg bound] at status ⊢
    have missed : (PMKVWrapper.mk (some db)).remove key state
        = (.notFound, (E.pmemkvRemove (some db) key state).2) := by
      simp [PMKVWrapper.remove, pmkvDelete, status, pmemkvStatusNotFound]
    rw [missed]
    exact ⟨rfl, updates⟩

/-- An existence test through the wrapper succeeds exactly on bound keys. -/
theorem PMKVWrapper.existsKey_of_live (laws : E.CmapLaws V)
    (live : V.Live state db path contents) (key : Bytes)
    : (PMKVWrapper.mk (some db)).existsKey key state
      = if key ∈ contents then .ok else .notFound := by
  rw [PMKVWrapper.existsKey, pmkvExists_of_live laws live]
  by_cases bound : key ∈ contents
  · simp [bound]
  · simp [bound]

/-- A put with room succeeds in both harnesses and rebinds its key. -/
theorem Harness.put_of_live (laws : E.CmapLaws V) (live : V.Live state db path contents)
    (harness : Harness) {key value : Bytes}
    (room : V.hasRoom state db key value = true)
    : (harness.put (PMKVWrapper.mk (some db)) key value state).1 = .ok .ok
      ∧ V.Updates state (harness.put (PMKVWrapper.mk (some db)) key value state).2 path
          (contents.insert key value) := by
  obtain ⟨status, updates⟩ := laws.putWithRoom live room
  have done : harness.put (PMKVWrapper.mk (some db)) key value state
      = (.ok .ok, (E.pmemkvPut (some db) key value state).2) := by
    cases harness with
    | tests => simp [Harness.put, pmkvPut, status, Status.ofInt]
    | bench => simp [Harness.put, pmkvPut, status, pmemkvStatusOk]
  rw [done]
  exact ⟨rfl, updates⟩

/-- Counting succeeds in both harnesses and reports the number of bound keys. -/
theorem Harness.countAll_of_live (laws : E.CmapLaws V)
    (live : V.Live state db path contents) (harness : Harness) (cnt : Nat)
    : harness.countAll (PMKVWrapper.mk (some db)) cnt state
      = (.ok .ok, contents.keys.card) := by
  have counted := laws.countAll cnt live
  cases harness with
  | tests => simp [Harness.countAll, pmkvCountAll, counted, Status.ofInt]
  | bench => simp [Harness.countAll, pmkvCountAll, counted, pmemkvStatusOk]

/-- What the benchmark's constructor has when it does not throw: the one live handle, onto a
new empty pool or onto the pool that was there. Witness: the four open laws, of which two
refuse.
-/
theorem Harness.bench_construct_ok (laws : E.CmapLaws V) (closed : V.Closed state)
    {size : Nat} {create : Bool} {wrapper : PMKVWrapper E} {next : E.State}
    (constructed : Harness.bench.construct E path size create state = (.ok wrapper, next))
    : ∃ db found, wrapper = ⟨some db⟩
      ∧ V.Live next db path found
      ∧ (∀ other, other ≠ db → V.handle next other = none)
      ∧ (if create then found = ∅ else V.pools state path = some found) := by
  let answer := E.pmemkvOpen "cmap" ⟨path, size, if create then 1 else 0⟩ state
  have refused (failed : answer.1 ≠ pmemkvStatusOk) : False := by
    simp [Harness.construct, pmkvOpen, answer, failed] at constructed
  have accepted {db : E.Db} {after : E.State}
      (opened : answer = (pmemkvStatusOk, some db, after))
      : wrapper = ⟨some db⟩ ∧ next = after := by
    have handle : pmkvOpen E path size (if create then 1 else 0) state = (some db, after) := by
      simp [pmkvOpen, show E.pmemkvOpen _ _ _ = _ from opened]
    simp only [Harness.construct, handle, Option.isNone_some, Bool.false_eq_true,
      if_false] at constructed
    cases constructed
    exact ⟨rfl, rfl⟩
  cases create with
  | true =>
      by_cases free : V.pools state path = none ∧ V.creatable path size = true
      · obtain ⟨db, after, opened, handle, only, pools⟩ := laws.createNew closed free.1 free.2
        obtain ⟨rfl, rfl⟩ := accepted opened
        exact ⟨db, ∅, rfl, ⟨handle, by rw [pools]; simp⟩, only, rfl⟩
      · have reason : V.pools state path ≠ none ∨ V.creatable path size = false := by
          rw [not_and_or, Bool.not_eq_true] at free
          exact free
        exact (refused (laws.createRefused closed reason).1).elim
  | false =>
      cases pool : V.pools state path with
      | none => exact (refused (laws.openMissing size closed pool).1).elim
      | some found =>
          obtain ⟨db, after, opened, handle, only, pools⟩ := laws.openExisting size closed pool
          obtain ⟨rfl, rfl⟩ := accepted opened
          exact ⟨db, found, rfl, ⟨handle, by rw [pools]; exact pool⟩, only, rfl⟩

/-- The benchmark's constructor opens a pool that exists. -/
theorem Harness.bench_construct_existing (laws : E.CmapLaws V) (closed : V.Closed state)
    (size : Nat) (present : V.pools state path = some contents)
    : ∃ db next, Harness.bench.construct E path size false state = (.ok ⟨some db⟩, next)
      ∧ V.pools next = V.pools state := by
  obtain ⟨db, next, opened, _, _, pools⟩ := laws.openExisting size closed present
  have handle : pmkvOpen E path size 0 state = (some db, next) := by
    simp [pmkvOpen, opened]
  exact ⟨db, next, by simp [Harness.construct, handle], pools⟩

end Live

end PMKVLab.Store
