import PMKVLab.Library.FiniteMaps

/-! The storage engine under the reference implementation. libpmemkv is an external
library, so its calls are parameters; the laws below are what its `cmap` engine documents
and what `src/pmemkv.c` relies on.
-/

namespace PMKVLab.Store

open PMKVLab.Library

abbrev Bytes := List UInt8

/-- The durable contents of one pool, a finite map from byte strings to byte strings. -/
abbrev Contents := FiniteMap Bytes Bytes

def pmemkvStatusOk : Int := 0
def pmemkvStatusUnknownError : Int := 1
def pmemkvStatusNotFound : Int := 2

/-- The three items `pmkv_open` puts into the engine configuration. -/
structure Config where
  path : String
  size : Nat
  forceCreate : Int
deriving DecidableEq, Repr

/-- What `pmemkv_get_copy` returns: its status, the caller's buffer and `*value_size`. -/
structure CopyResult where
  status : Int
  buffer : Bytes
  valueSize : Nat
deriving DecidableEq, Repr

/-- The libpmemkv calls the repository makes. A null handle is `none`; out-parameters the
caller initializes are passed in and returned. `crash` is what a killed process leaves.
-/
structure Engine where
  State : Type
  Db : Type
  pmemkvOpen (engine : String) (cfg : Config) (state : State) : Int × Option Db × State
  pmemkvClose (db : Option Db) (state : State) : State
  pmemkvGetCopy (db : Option Db) (key : Bytes) (bufferSize : Nat) (state : State)
    : CopyResult
  pmemkvPut (db : Option Db) (key value : Bytes) (state : State) : Int × State
  pmemkvRemove (db : Option Db) (key : Bytes) (state : State) : Int × State
  pmemkvCountAll (db : Option Db) (cnt : Nat) (state : State) : Int × Nat
  pmemkvExists (db : Option Db) (key : Bytes) (state : State) : Int
  crash (state : State) : State

-----------------------------------------------------------------------------------------
-- The abstract view of an engine state and the laws over it
-----------------------------------------------------------------------------------------

/-- What can be said about an engine state: the contents of the pool at each path, the
pool behind each live handle, and the engine's own limits.
-/
structure Engine.View (E : Engine) where
  pools : E.State → String → Option Contents
  handle : E.State → E.Db → Option String
  creatable : String → Nat → Bool
  hasRoom : E.State → E.Db → Bytes → Bytes → Bool
  fits : Nat → Nat → Bool
  outOfMemory : Int

namespace Engine.View

variable {E : Engine} (V : E.View)

/-- `db` is a live handle onto the pool at `path`, which holds `contents`. -/
def Live (state : E.State) (db : E.Db) (path : String) (contents : Contents) : Prop :=
  V.handle state db = some path ∧ V.pools state path = some contents

/-- `next` differs from `state` only in the pool at `path`, which now holds `contents`. -/
def Updates (state next : E.State) (path : String) (contents : Contents) : Prop :=
  V.pools next = Function.update (V.pools state) path (some contents)
  ∧ V.handle next = V.handle state

/-- No handle is live. -/
def Closed (state : E.State) : Prop := ∀ db, V.handle state db = none

variable {V}

/-- A handle stays live across an update of its pool and reads the new contents. -/
theorem Live.of_updates {state next : E.State} {db : E.Db} {path : String}
    {old contents : Contents}
    (live : V.Live state db path old) (updates : V.Updates state next path contents)
    : V.Live next db path contents :=
  ⟨by rw [updates.2]; exact live.1, by rw [updates.1]; simp⟩

end Engine.View

/-- The documented behaviour of the `cmap` engine: a durable finite map behind each live
handle. A value that is too long for the caller's buffer is not copied out, and a put for
which the pool has no room changes nothing.
-/
structure Engine.CmapLaws (E : Engine) (V : E.View) : Prop where
  fits_of_lt {size buffer : Nat} : size < buffer → V.fits size buffer = true
  outOfMemory_distinct
    : V.outOfMemory ≠ pmemkvStatusOk
      ∧ V.outOfMemory ≠ pmemkvStatusUnknownError
      ∧ V.outOfMemory ≠ pmemkvStatusNotFound
  openExisting {state : E.State} {path : String} {contents : Contents} (size : Nat)
    : V.Closed state
      → V.pools state path = some contents
      → ∃ db next,
          E.pmemkvOpen "cmap" ⟨path, size, 0⟩ state = (pmemkvStatusOk, some db, next)
          ∧ V.handle next db = some path
          ∧ (∀ other, other ≠ db → V.handle next other = none)
          ∧ V.pools next = V.pools state
  openMissing {state : E.State} {path : String} (size : Nat)
    : V.Closed state
      → V.pools state path = none
      → (E.pmemkvOpen "cmap" ⟨path, size, 0⟩ state).1 ≠ pmemkvStatusOk
        ∧ V.Closed (E.pmemkvOpen "cmap" ⟨path, size, 0⟩ state).2.2
        ∧ V.pools (E.pmemkvOpen "cmap" ⟨path, size, 0⟩ state).2.2 = V.pools state
  createNew {state : E.State} {path : String} {size : Nat}
    : V.Closed state
      → V.pools state path = none
      → V.creatable path size = true
      → ∃ db next,
          E.pmemkvOpen "cmap" ⟨path, size, 1⟩ state = (pmemkvStatusOk, some db, next)
          ∧ V.handle next db = some path
          ∧ (∀ other, other ≠ db → V.handle next other = none)
          ∧ V.pools next = Function.update (V.pools state) path (some ∅)
  createRefused {state : E.State} {path : String} {size : Nat}
    : V.Closed state
      → (V.pools state path ≠ none ∨ V.creatable path size = false)
      → (E.pmemkvOpen "cmap" ⟨path, size, 1⟩ state).1 ≠ pmemkvStatusOk
        ∧ V.Closed (E.pmemkvOpen "cmap" ⟨path, size, 1⟩ state).2.2
        ∧ V.pools (E.pmemkvOpen "cmap" ⟨path, size, 1⟩ state).2.2 = V.pools state
  close {state : E.State} {db : E.Db} {path : String}
    : V.handle state db = some path
      → V.handle (E.pmemkvClose (some db) state) db = none
        ∧ (∀ other, other ≠ db
            → V.handle (E.pmemkvClose (some db) state) other = V.handle state other)
        ∧ V.pools (E.pmemkvClose (some db) state) = V.pools state
  putWithRoom {state : E.State} {db : E.Db} {path : String} {contents : Contents}
    {key value : Bytes}
    : V.Live state db path contents
      → V.hasRoom state db key value = true
      → (E.pmemkvPut (some db) key value state).1 = pmemkvStatusOk
        ∧ V.Updates state (E.pmemkvPut (some db) key value state).2 path
            (contents.insert key value)
  putWithoutRoom {state : E.State} {db : E.Db} {path : String} {contents : Contents}
    {key value : Bytes}
    : V.Live state db path contents
      → V.hasRoom state db key value = false
      → (E.pmemkvPut (some db) key value state).1 = V.outOfMemory
        ∧ V.Updates state (E.pmemkvPut (some db) key value state).2 path contents
  remove {state : E.State} {db : E.Db} {path : String} {contents : Contents} (key : Bytes)
    : V.Live state db path contents
      → (E.pmemkvRemove (some db) key state).1
          = (if key ∈ contents then pmemkvStatusOk else pmemkvStatusNotFound)
        ∧ V.Updates state (E.pmemkvRemove (some db) key state).2 path (contents.erase key)
  existsKey {state : E.State} {db : E.Db} {path : String} {contents : Contents}
    (key : Bytes)
    : V.Live state db path contents
      → E.pmemkvExists (some db) key state
        = (if key ∈ contents then pmemkvStatusOk else pmemkvStatusNotFound)
  countAll {state : E.State} {db : E.Db} {path : String} {contents : Contents} (cnt : Nat)
    : V.Live state db path contents
      → E.pmemkvCountAll (some db) cnt state = (pmemkvStatusOk, contents.keys.card)
  getUnbound {state : E.State} {db : E.Db} {path : String} {contents : Contents}
    {key : Bytes} (bufferSize : Nat)
    : V.Live state db path contents
      → contents.lookup key = none
      → (E.pmemkvGetCopy (some db) key bufferSize state).status = pmemkvStatusNotFound
  getFitting {state : E.State} {db : E.Db} {path : String} {contents : Contents}
    {key value : Bytes} {bufferSize : Nat}
    : V.Live state db path contents
      → contents.lookup key = some value
      → V.fits value.length bufferSize = true
      → (E.pmemkvGetCopy (some db) key bufferSize state).status = pmemkvStatusOk
        ∧ (E.pmemkvGetCopy (some db) key bufferSize state).valueSize = value.length
        ∧ (E.pmemkvGetCopy (some db) key bufferSize state).buffer.take value.length = value
  getTooLong {state : E.State} {db : E.Db} {path : String} {contents : Contents}
    {key value : Bytes} {bufferSize : Nat}
    : V.Live state db path contents
      → contents.lookup key = some value
      → V.fits value.length bufferSize = false
      → (E.pmemkvGetCopy (some db) key bufferSize state).status ≠ pmemkvStatusOk
  crash (state : E.State)
    : V.pools (E.crash state) = V.pools state ∧ V.handle (E.crash state) = V.handle state

/-- The pool never runs out of room. -/
def Engine.View.AlwaysRoom {E : Engine} (V : E.View) : Prop :=
  ∀ state db key value, V.hasRoom state db key value = true

end PMKVLab.Store
