import PMKVLab.Library.Machines
import PMKVLab.Store.TableEngine
import PMKVLab.Store.Wrapper

/-! Histories of calls made through `PMKVWrapper`, the abstract map machine they are
compared with, and the proof that both answer every history alike.
-/

namespace PMKVLab.Store

open PMKVLab.Library

/-- One call of a history. `get` carries what `*value` holds before the call, `countAll`
what `cnt` holds.
-/
inductive Call
  | «open» (path : String) (size : Nat) (create : Bool)
  | put (key value : Bytes)
  | get (key value : Bytes)
  | remove (key : Bytes)
  | existsKey (key : Bytes)
  | countAll (cnt : Nat)
  | close
deriving DecidableEq, Repr

/-- What the harness sees of one call. A call without a wrapper to make it through (or a
second construction while one is live) is `skipped`: no harness has such an object.
-/
inductive Observation
  | opened (valid : Bool)
  | status (s : Status)
  | value (s : Status) (value : Bytes)
  | count (s : Status) (cnt : Nat)
  | thrown (what : String)
  | closed
  | skipped
deriving DecidableEq, Repr

/-- The harness at work: the engine's state and the wrapper object, if one is live. -/
structure Session (E : Engine) where
  engine : E.State
  wrapper : Option (PMKVWrapper E)

/-- A wrapper is kept only when it is valid: every test first asserts `is_db_valid`, and
the benchmark's constructor has thrown otherwise.
-/
def Session.step {E : Engine} (harness : Harness) (call : Call) (session : Session E)
    : Observation × Session E :=
  match call, session.wrapper with
  | .open path size create, none =>
      match harness.construct E path size create session.engine with
      | (.error _, next) => (.opened false, ⟨next, none⟩)
      | (.ok wrapper, next) =>
          if wrapper.isDbValid then (.opened true, ⟨next, some wrapper⟩)
          else (.opened false, ⟨next, none⟩)
  | .put key value, some wrapper =>
      match harness.put wrapper key value session.engine with
      | (.error what, next) => (.thrown what, ⟨next, some wrapper⟩)
      | (.ok s, next) => (.status s, ⟨next, some wrapper⟩)
  | .get key value, some wrapper =>
      let (s, read) := wrapper.get key value session.engine
      (.value s read, session)
  | .remove key, some wrapper =>
      let (s, next) := wrapper.remove key session.engine
      (.status s, ⟨next, some wrapper⟩)
  | .existsKey key, some wrapper =>
      (.status (wrapper.existsKey key session.engine), session)
  | .countAll cnt, some wrapper =>
      match harness.countAll wrapper cnt session.engine with
      | (.error what, _) => (.thrown what, session)
      | (.ok s, counted) => (.count s counted, session)
  | .close, some wrapper => (.closed, ⟨wrapper.destroy session.engine, none⟩)
  | _, _ => (.skipped, session)

-----------------------------------------------------------------------------------------
-- The abstract machine: durable finite maps, one of them open
-----------------------------------------------------------------------------------------

/-- Finite maps by path and the path of the open one, which always exists. -/
structure MapState where
  pools : String → Option Contents
  current : Option String
  backed : ∀ path, current = some path → (pools path).isSome

namespace MapState

def closed (pools : String → Option Contents) : MapState := ⟨pools, none, by simp⟩

/-- The open map. -/
def contents? (state : MapState) : Option (String × Contents) := do
  let path ← state.current
  let contents ← state.pools path
  return (path, contents)

def openAt (pools : String → Option Contents) (path : String)
    (present : (pools path).isSome)
    : MapState :=
  ⟨pools, some path, by intro other same; cases same; exact present⟩

def write (state : MapState) (path : String) (contents : Contents) : MapState where
  pools := Function.update state.pools path (some contents)
  current := state.current
  backed := by
    intro other same
    by_cases changed : other = path
    · simp [changed]
    · simpa [changed] using state.backed other same

/-- What each call means on maps: a put binds and succeeds, a get of a bound key returns
the bound value and otherwise leaves `*value` alone, a removal succeeds on bound keys and
unbinds only that key, an existence test reports whether the key is bound, and a count
reports the number of bound keys. Closing keeps every map, reopening finds it again.
-/
def step (creatable : String → Nat → Bool) (call : Call) (state : MapState)
    : Observation × MapState :=
  match call, state.contents? with
  | .open path size create, none =>
      if create then
        if (state.pools path).isNone ∧ creatable path size then
          (.opened true, openAt (Function.update state.pools path (some ∅)) path (by simp))
        else (.opened false, state)
      else if present : (state.pools path).isSome then
        (.opened true, openAt state.pools path present)
      else (.opened false, state)
  | .put key value, some (path, contents) =>
      (.status .ok, state.write path (contents.insert key value))
  | .get key value, some (_, contents) =>
      match contents.lookup key with
      | none => (.value .notFound value, state)
      | some bound => (.value .ok bound, state)
  | .remove key, some (path, contents) =>
      (.status (if key ∈ contents then .ok else .notFound),
        state.write path (contents.erase key))
  | .existsKey key, some (_, contents) =>
      (.status (if key ∈ contents then .ok else .notFound), state)
  | .countAll _, some (_, contents) => (.count .ok contents.keys.card, state)
  | .close, some _ => (.closed, closed state.pools)
  | _, _ => (.skipped, state)

/-- Every stored value is shorter than `MAX_VAL_LEN`. -/
def Short (state : MapState) : Prop :=
  ∀ path contents key value, state.pools path = some contents
    → contents.lookup key = some value → value.length < maxValLen

end MapState

end PMKVLab.Store
