import PMKVLab.Store.Engine

/-! The reference implementation `src/pmemkv.c` of the PMKV interface, and what each of its
calls does on a live handle.
-/

namespace PMKVLab.Store

open PMKVLab.Library

/-- `MAX_VAL_LEN` of `include/pmkv.h`. -/
def maxValLen : Nat := 1048576

section Calls

variable (E : Engine)

/-- A failed open leaves a null handle. -/
def pmkvOpen (path : String) (poolSize : Nat) (forceCreate : Int) (state : E.State)
    : Option E.Db × E.State :=
  let (status, db, next) := E.pmemkvOpen "cmap" ⟨path, poolSize, forceCreate⟩ state
  if status ≠ pmemkvStatusOk then (none, next) else (db, next)

def pmkvClose (kv : Option E.Db) (state : E.State) : E.State :=
  E.pmemkvClose kv state

/-- The caller's buffer always counts as `MAX_VAL_LEN` bytes. -/
def pmkvGet (kv : Option E.Db) (key : Bytes) (state : E.State) : CopyResult :=
  E.pmemkvGetCopy kv key maxValLen state

def pmkvPut (kv : Option E.Db) (key value : Bytes) (state : E.State) : Int × E.State :=
  E.pmemkvPut kv key value state

def pmkvDelete (kv : Option E.Db) (key : Bytes) (state : E.State) : Int × E.State :=
  E.pmemkvRemove kv key state

def pmkvCountAll (kv : Option E.Db) (cnt : Nat) (state : E.State) : Int × Nat :=
  E.pmemkvCountAll kv cnt state

/-- The only call whose status is translated: 1 for a bound key and 0 otherwise. -/
def pmkvExists (kv : Option E.Db) (key : Bytes) (state : E.State) : Int :=
  let s := E.pmemkvExists kv key state
  if s = pmemkvStatusOk then 1 else 0

end Calls

section Live

variable {E : Engine} {V : E.View} {state : E.State} {db : E.Db} {path : String}
  {contents : Contents}

/-- Reading a bound value that fits returns it, by the engine's copy law. -/
theorem pmkvGet_of_fits (laws : E.CmapLaws V) (live : V.Live state db path contents)
    {key value : Bytes} (found : contents.lookup key = some value)
    (fits : V.fits value.length maxValLen = true)
    : (pmkvGet E (some db) key state).status = pmemkvStatusOk
      ∧ (pmkvGet E (some db) key state).buffer.take (pmkvGet E (some db) key state).valueSize
        = value := by
  obtain ⟨ok, size, copied⟩ := laws.getFitting live found fits
  refine ⟨ok, ?_⟩
  rw [pmkvGet, size, copied]

/-- A read succeeds exactly on bound keys whose value fits, by the three copy laws. -/
theorem pmkvGet_status_ok_iff (laws : E.CmapLaws V) (live : V.Live state db path contents)
    (key : Bytes)
    : (pmkvGet E (some db) key state).status = pmemkvStatusOk
      ↔ ∃ value, contents.lookup key = some value
          ∧ V.fits value.length maxValLen = true := by
  cases found : contents.lookup key with
  | none =>
      have absent : (pmkvGet E (some db) key state).status = pmemkvStatusNotFound :=
        laws.getUnbound maxValLen live found
      rw [absent]
      exact ⟨fun wrong => absurd wrong (by decide), by simp⟩
  | some value =>
      cases fits : V.fits value.length maxValLen with
      | true => simp [pmkvGet_of_fits laws live found fits, fits]
      | false => simp [pmkvGet, laws.getTooLong live found fits, fits]

/-- An existence test answers 1 exactly on bound keys. -/
theorem pmkvExists_of_live (laws : E.CmapLaws V) (live : V.Live state db path contents)
    (key : Bytes)
    : pmkvExists E (some db) key state = if key ∈ contents then 1 else 0 := by
  rw [pmkvExists, laws.existsKey key live]
  by_cases bound : key ∈ contents
  · simp [bound]
  · simp [bound, pmemkvStatusNotFound, pmemkvStatusOk]

end Live

end PMKVLab.Store
