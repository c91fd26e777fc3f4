import PMKVLab.Store.Engine

/-! An executable engine with the `cmap` laws: pools and handles kept in two tables. It is
the concrete engine on which the development runs its histories.
-/

namespace PMKVLab.Store

open PMKVLab.Library

/-- Pools by path, the pool behind each live handle, and the next unused handle. -/
structure TableState where
  pools : String → Option Contents
  handles : Nat → Option String
  next : Nat

namespace TableState

/-- No pool exists and no handle is live. -/
def empty : TableState where
  pools _ := none
  handles _ := none
  next := 0

def contents? (state : TableState) (db : Option Nat) : Option (String × Contents) := do
  let path ← state.handles (← db)
  let contents ← state.pools path
  return (path, contents)

def busy (state : TableState) (path : String) : Bool :=
  (List.range state.next).any (fun db => state.handles db = some path)

def setPool (state : TableState) (path : String) (contents : Contents) : TableState :=
  { state with pools := Function.update state.pools path (some contents) }

def addHandle (state : TableState) (path : String) : TableState :=
  { state with
    handles := Function.update state.handles state.next (some path)
    next := state.next + 1 }

def dropHandle (state : TableState) (db : Option Nat) : TableState :=
  match db with
  | none => state
  | some name => { state with handles := Function.update state.handles name none }

end TableState

/-- The smallest pool the platform creates, in bytes. -/
def minPoolSize : Nat := 8 * 1024 * 1024

/-- An in-memory `cmap`: unknown engines, existing or too small pools to create, missing
or busy pools to open and dead handles are refused with the library's other codes.
-/
abbrev tableEngine : Engine where
  State := TableState
  Db := Nat
  pmemkvOpen engine cfg state :=
    if engine ≠ "cmap" then (9, none, state)
    else if cfg.forceCreate = 0 then
      if (state.pools cfg.path).isNone ∨ state.busy cfg.path
      then (pmemkvStatusUnknownError, none, state)
      else (pmemkvStatusOk, some state.next, state.addHandle cfg.path)
    else if (state.pools cfg.path).isSome ∨ cfg.size < minPoolSize
    then (pmemkvStatusUnknownError, none, state)
    else (pmemkvStatusOk, some state.next, (state.setPool cfg.path ∅).addHandle cfg.path)
  pmemkvClose db state := state.dropHandle db
  pmemkvGetCopy db key bufferSize state :=
    match state.contents? db with
    | none => ⟨4, [], 0⟩
    | some (_, contents) =>
        match contents.lookup key with
        | none => ⟨pmemkvStatusNotFound, [], 0⟩
        | some value =>
            if value.length < bufferSize then ⟨pmemkvStatusOk, value, value.length⟩
            else ⟨8, [], value.length⟩
  pmemkvPut db key value state :=
    match state.contents? db with
    | none => (4, state)
    | some (path, contents) =>
        (pmemkvStatusOk, state.setPool path (contents.insert key value))
  pmemkvRemove db key state :=
    match state.contents? db with
    | none => (4, state)
    | some (path, contents) =>
        if key ∈ contents then (pmemkvStatusOk, state.setPool path (contents.erase key))
        else (pmemkvStatusNotFound, state)
  pmemkvCountAll db cnt state :=
    match state.contents? db with
    | none => (4, cnt)
    | some (_, contents) => (pmemkvStatusOk, contents.keys.card)
  pmemkvExists db key state :=
    match state.contents? db with
    | none => 4
    | some (_, contents) =>
        if key ∈ contents then pmemkvStatusOk else pmemkvStatusNotFound
  crash state := state

/-- The view of the table engine reads its two tables. -/
abbrev tableView : tableEngine.View where
  pools state := state.pools
  handle state := state.handles
  creatable _ size := decide (minPoolSize ≤ size)
  hasRoom _ _ _ _ := true
  fits size buffer := decide (size < buffer)
  outOfMemory := 8

-----------------------------------------------------------------------------------------
-- The table engine satisfies the engine laws
-----------------------------------------------------------------------------------------

namespace TableState

/-- A live handle resolves to its pool, by the two successful lookups. -/
theorem contents?_of_live {state : TableState} {db : Nat} {path : String}
    {contents : Contents} (live : tableView.Live state db path contents)
    : state.contents? (some db) = some (path, contents) := by
  have handle : state.handles db = some path := live.1
  have pool : state.pools path = some contents := live.2
  simp [contents?, handle, pool]

/-- Without live handles no pool is busy. -/
theorem not_busy_of_closed {state : TableState} (closed : tableView.Closed state)
    (path : String)
    : state.busy path = false := by
  have absent : ∀ db, state.handles db = none := closed
  simp [busy, absent]

/-- A handle added to a state without live handles is the only live one. -/
theorem addHandle_only {state : TableState} (closed : tableView.Closed state)
    (path : String) {other : Nat} (different : other ≠ state.next)
    : (state.addHandle path).handles other = none := by
  have absent : state.handles other = none := closed other
  simp [addHandle, different, absent]

/-- Writing back the contents a pool already has changes nothing in the view. -/
theorem updates_self {state : TableState} {path : String} {contents : Contents}
    (pool : state.pools path = some contents)
    : tableView.Updates state state path contents := by
  refine ⟨?_, rfl⟩
  change state.pools = Function.update state.pools path (some contents)
  rw [← pool, Function.update_eq_self]

end TableState

/-- The table engine is a `cmap`. Witness: each law is read off the matching table
operation once the live handle is resolved to its pool.
-/
theorem tableEngine_cmapLaws : tableEngine.CmapLaws tableView where
  fits_of_lt less := decide_eq_true less
  outOfMemory_distinct := by decide
  openExisting {state path contents} size closed pool := by
    have free := TableState.not_busy_of_closed closed path
    have pool : state.pools path = some contents := pool
    refine ⟨state.next, state.addHandle path, ?_, ?_, ?_, rfl⟩
    · simp [pool, free]
    · simp [TableState.addHandle]
    · intro other different
      exact TableState.addHandle_only closed path different
  openMissing {state path} size closed pool := by
    have pool : state.pools path = none := pool
    have refused : tableEngine.pmemkvOpen "cmap" ⟨path, size, 0⟩ state
        = (pmemkvStatusUnknownError, none, state) := by
      simp [pool]
    rw [refused]
    exact ⟨Int.one_ne_zero, closed, rfl⟩
  createNew {state path size} closed pool creatable := by
    have pool : state.pools path = none := pool
    have large : ¬ size < minPoolSize := Nat.not_lt.mpr (of_decide_eq_true creatable)
    refine ⟨state.next, (state.setPool path ∅).addHandle path, ?_, ?_, ?_, rfl⟩
    · simp [pool, large]
    · simp [TableState.addHandle, TableState.setPool]
    · intro other different
      have free : tableView.Closed (state.setPool path ∅) := closed
      exact TableState.addHandle_only free path different
  createRefused {state path size} closed reason := by
    have blocked : (state.pools path).isSome ∨ size < minPoolSize := by
      rcases reason with existing | small
      · exact Or.inl (Option.isSome_iff_ne_none.mpr existing)
      · exact Or.inr (Nat.not_le.mp (of_decide_eq_false small))
    have refused : tableEngine.pmemkvOpen "cmap" ⟨path, size, 1⟩ state
        = (pmemkvStatusUnknownError, none, state) := by
      simp only [ne_eq, not_true_eq_false, if_false, one_ne_zero, blocked, if_true]
    rw [refused]
    exact ⟨Int.one_ne_zero, closed, rfl⟩
  close {state db path} _ := by
    refine ⟨?_, ?_, rfl⟩
    · simp [TableState.dropHandle]
    · intro other different
      simp [TableState.dropHandle, different]
  putWithRoom live _ := by
    simp only [TableState.contents?_of_live live]
    exact ⟨trivial, rfl, rfl⟩
  putWithoutRoom _ full := Bool.noConfusion full
  remove {state db path contents} key live := by
    simp only [TableState.contents?_of_live live]
    by_cases bound : key ∈ contents
    · simp only [if_pos bound]
      exact ⟨trivial, rfl, rfl⟩
    · simp only [if_neg bound]
      rw [erase_of_unbound (Finmap.lookup_eq_none.mpr bound)]
      exact ⟨trivial, TableState.updates_self live.2⟩
  existsKey key live := by simp only [TableState.contents?_of_live live]
  countAll cnt live := by simp only [TableState.contents?_of_live live]
  getUnbound bufferSize live unbound := by
    simp only [TableState.contents?_of_live live, unbound]
  getFitting {state db path contents key value bufferSize} live found fits := by
    have short : value.length < bufferSize := of_decide_eq_true fits
    simp [TableState.contents?_of_live live, found, short]
  getTooLong {state db path contents key value bufferSize} live found tooLong := by
    have long : ¬ value.length < bufferSize := of_decide_eq_false tooLong
    simp only [TableState.contents?_of_live live, found, if_neg long]
    decide
  crash state := ⟨rfl, rfl⟩

/-- The table engine has no capacity limit. -/
theorem tableView_alwaysRoom : tableView.AlwaysRoom := by
  intro _ _ _ _
  rfl

/-- A pool at the test path, open under handle 0. -/
def openedTable (contents : Contents) : TableState where
  pools := Function.update (fun _ => none) "/mnt/ramdisk/test" (some contents)
  handles := Function.update (fun _ => none) 0 (some "/mnt/ramdisk/test")
  next := 1

/-- Handle 0 of the opened table is live, by reading both tables. -/
theorem openedTable_live (contents : Contents)
    : tableView.Live (openedTable contents) 0 "/mnt/ramdisk/test" contents := by
  constructor
  · simp [openedTable]
  · simp [openedTable]

end PMKVLab.Store
