import PMKVLab.Library.Machines
import PMKVLab.Store.ReferenceImplementation
import PMKVLab.Store.TableEngine

/-! The return-value contract of the README, over histories of C calls on one open handle.
The reference implementation passes raw engine codes through, and bounds value lengths only
on the read path; the contract holds exactly for histories that meet neither.
-/

namespace PMKVLab.Store

open PMKVLab.Library

/-- One C-level call on an open handle. -/
inductive CCall
  | put (key value : Bytes)
  | get (key : Bytes)
  | delete (key : Bytes)
  | countAll (cnt : Nat)
  | existsKey (key : Bytes)
deriving DecidableEq, Repr

/-- The C return value, and the bytes a read delivers in `out_val` and `out_val_size`. -/
structure CAnswer where
  code : Int
  value : Bytes
deriving DecidableEq, Repr

section Contract

variable {E : Engine}

def CCall.step (db : E.Db) (call : CCall) (state : E.State) : CAnswer × E.State :=
  match call with
  | .put key value =>
      let (code, next) := pmkvPut E (some db) key value state
      (⟨code, []⟩, next)
  | .get key =>
      let copied := pmkvGet E (some db) key state
      (⟨copied.status, copied.buffer.take copied.valueSize⟩, state)
  | .delete key =>
      let (code, next) := pmkvDelete E (some db) key state
      (⟨code, []⟩, next)
  | .countAll cnt => (⟨(pmkvCountAll E (some db) cnt state).1, []⟩, state)
  | .existsKey key => (⟨pmkvExists E (some db) key state, []⟩, state)

/-- The call may rebind or unbind `key`. -/
def CCall.writes (key : Bytes) : CCall → Prop
  | .put other _ => other = key
  | .delete other => other = key
  | _ => False

variable (V : E.View) (db : E.Db)

/-- The map behind the handle. -/
def Engine.View.contents (state : E.State) : Contents :=
  ((V.handle state db).bind (V.pools state)).getD ∅

/-- The state after a history of calls on the handle. -/
def after (calls : List CCall) (state : E.State) : E.State :=
  (run (CCall.step db) calls state).2

/-- The corresponding operation of the abstract map succeeds: there is room to bind, or
there is a binding to return or to remove. Counting always succeeds.
-/
def CCall.Succeeds (state : E.State) : CCall → Prop
  | .put key value => V.hasRoom state db key value = true
  | .get key => key ∈ V.contents db state
  | .delete key => key ∈ V.contents db state
  | .countAll _ => True
  | .existsKey key => key ∈ V.contents db state

/-- The README's contract along a history: `codes` is "on success return 0, otherwise
return 1" for the four calls it is stated for, `readsBack` says that a read after a
successful put returns that value, and `existsAgrees` that an existence test and a read
agree on every key at every point.
-/
structure ReturnContract (state : E.State) (calls : List CCall) : Prop where
  codes
    : ∀ before call rest, calls = before ++ call :: rest
        → (∀ key, call ≠ .existsKey key)
        → ((call.Succeeds V db (after db before state)
              → (call.step db (after db before state)).1.code = 0)
            ∧ (¬ call.Succeeds V db (after db before state)
              → (call.step db (after db before state)).1.code = 1))
  readsBack
    : ∀ before key value between rest,
        calls = before ++ CCall.put key value :: (between ++ rest)
        → ((CCall.put key value).step db (after db before state)).1.code = 0
        → (∀ call ∈ between, ¬ call.writes key)
        → ((CCall.get key).step db
            (after db (before ++ CCall.put key value :: between) state)).1 = ⟨0, value⟩
  existsAgrees
    : ∀ before rest, calls = before ++ rest
        → ∀ key,
            ((CCall.existsKey key).step db (after db before state)).1.code = 1
            ↔ ((CCall.get key).step db (after db before state)).1.code = 0

/-- The condition on one call in the state before it: a put has room and its value fits
the read buffer, and reads and deletions are of bound keys.
-/
def CCall.WithinLimits (state : E.State) : CCall → Prop
  | .put key value =>
      V.hasRoom state db key value = true ∧ V.fits value.length maxValLen = true
  | .get key => key ∈ V.contents db state
  | .delete key => key ∈ V.contents db state
  | .countAll _ => True
  | .existsKey _ => True

instance (state : E.State) (call : CCall) : Decidable (call.Succeeds V db state) :=
  match call with
  | .put key value => inferInstanceAs (Decidable (V.hasRoom state db key value = true))
  | .get key | .delete key | .existsKey key =>
      inferInstanceAs (Decidable (key ∈ V.contents db state))
  | .countAll _ => isTrue trivial

instance (state : E.State) (call : CCall) : Decidable (call.WithinLimits V db state) :=
  match call with
  | .put key value =>
      inferInstanceAs (Decidable (V.hasRoom state db key value = true
        ∧ V.fits value.length maxValLen = true))
  | .get key | .delete key => inferInstanceAs (Decidable (key ∈ V.contents db state))
  | .countAll _ | .existsKey _ => isTrue trivial

/-- Every stored value fits the read buffer. -/
def AllFit (contents : Contents) : Prop :=
  ∀ key value, contents.lookup key = some value → V.fits value.length maxValLen = true

end Contract

-----------------------------------------------------------------------------------------
-- What one call does to the map, and what a history keeps
-----------------------------------------------------------------------------------------

section Histories

variable {E : Engine} {V : E.View} {db : E.Db} {path : String}

theorem after_append (first second : List CCall) (state : E.State)
    : after db (first ++ second) state = after db second (after db first state) := by
  simp only [after, run_append]

/-- A live handle names its map. -/
theorem Engine.View.contents_of_live {state : E.State} {contents : Contents}
    (live : V.Live state db path contents)
    : V.contents db state = contents := by
  simp [Engine.View.contents, live.1, live.2]

/-- A call leaves the handle live, and its map agrees with the old one except on keys the
call writes. Witness: the engine law of each call.
-/
theorem CCall.step_live (laws : E.CmapLaws V) {state : E.State} {contents : Contents}
    (live : V.Live state db path contents) (call : CCall)
    : ∃ next, V.Live (call.step db state).2 db path next
        ∧ (∀ key, ¬ call.writes key → next.lookup key = contents.lookup key)
        ∧ (∀ key value, call = .put key value → V.hasRoom state db key value = true
            → next = contents.insert key value)
        ∧ (∀ key value, next.lookup key = some value
            → contents.lookup key = some value ∨ call = .put key value) := by
  cases call with
  | put key value =>
      cases room : V.hasRoom state db key value with
      | true =>
          have updates := (laws.putWithRoom live room).2
          refine ⟨contents.insert key value, live.of_updates updates, ?_, ?_, ?_⟩
          · intro other untouched
            exact Finmap.lookup_insert_of_ne _ (fun same => untouched same.symm)
          · intro other found same _
            cases same
            rfl
          · intro other found lookup
            rw [lookup_insert_eq] at lookup
            split at lookup
            · next same =>
                cases lookup
                exact Or.inr (by rw [same])
            · exact Or.inl lookup
      | false =>
          have updates := (laws.putWithoutRoom live room).2
          refine ⟨contents, live.of_updates updates, fun _ _ => rfl, ?_, ?_⟩
          · intro other found same full
            cases same
            exact absurd full (by simp [room])
          · exact fun _ _ lookup => Or.inl lookup
  | delete key =>
      have updates := (laws.remove key live).2
      refine ⟨contents.erase key, live.of_updates updates, ?_, by simp, ?_⟩
      · intro other untouched
        exact Finmap.lookup_erase_ne (fun same => untouched same.symm)
      · intro other found lookup
        rw [lookup_erase_eq] at lookup
        split at lookup
        · cases lookup
        · exact Or.inl lookup
  | get | countAll | existsKey =>
      exact ⟨contents, live, fun _ _ => rfl, by simp, fun _ _ lookup => Or.inl lookup⟩

/-- The handle stays live along every history, by induction on the calls. -/
theorem after_live (laws : E.CmapLaws V) (calls : List CCall) {state : E.State}
    {contents : Contents} (live : V.Live state db path contents)
    : ∃ final, V.Live (after db calls state) db path final := by
  induction calls generalizing state contents with
  | nil => exact ⟨contents, live⟩
  | cons call rest ih =>
      obtain ⟨next, liveNext, _⟩ := call.step_live laws live
      exact ih liveNext

/-- A key that no call of a history writes keeps its binding, by induction on the calls. -/
theorem after_lookup_unwritten (laws : E.CmapLaws V) (calls : List CCall) {key : Bytes}
    (unwritten : ∀ call ∈ calls, ¬ call.writes key) {state : E.State}
    {contents : Contents} (live : V.Live state db path contents)
    : ∃ final, V.Live (after db calls state) db path final
        ∧ final.lookup key = contents.lookup key := by
  induction calls generalizing state contents with
  | nil => exact ⟨contents, live, rfl⟩
  | cons call rest ih =>
      obtain ⟨next, liveNext, same, _⟩ := call.step_live laws live
      obtain ⟨final, liveFinal, kept⟩ :=
        ih (fun later member => unwritten later (by simp [member])) liveNext
      exact ⟨final, liveFinal, kept.trans (same key (unwritten call (by simp)))⟩

/-- Where every value fits, existence tests and reads agree on every key. -/
theorem existsAgrees_of_allFit (laws : E.CmapLaws V) {state : E.State}
    {contents : Contents} (live : V.Live state db path contents)
    (fit : AllFit V contents) (key : Bytes)
    : ((CCall.existsKey key).step db state).1.code = 1
      ↔ ((CCall.get key).step db state).1.code = 0 := by
  have read := pmkvGet_status_ok_iff laws live key
  simp only [CCall.step, pmkvExists_of_live laws live key]
  refine Iff.trans ?_ read.symm
  constructor
  · intro one
    have bound : key ∈ contents := by
      by_contra unbound
      simp [unbound] at one
    obtain ⟨value, found⟩ := Finmap.mem_iff.mp bound
    exact ⟨value, found, fit key value found⟩
  · rintro ⟨value, found, _⟩
    simp [Finmap.mem_of_lookup_eq_some found]

/-- Calls within limits keep every stored value readable, by induction on the calls: the
only new value is that of a put, which fits.
-/
theorem after_allFit (laws : E.CmapLaws V) (calls : List CCall) {state : E.State}
    {contents : Contents} (live : V.Live state db path contents)
    (fit : AllFit V contents)
    (within : ∀ before call rest, calls = before ++ call :: rest
      → call.WithinLimits V db (after db before state))
    : ∃ final, V.Live (after db calls state) db path final ∧ AllFit V final := by
  induction calls generalizing state contents with
  | nil => exact ⟨contents, live, fit⟩
  | cons call rest ih =>
      obtain ⟨next, liveNext, _, _, origin⟩ := call.step_live laws live
      have fitNext : AllFit V next := by
        intro key value lookup
        rcases origin key value lookup with old | put
        · exact fit key value old
        · have limits := within [] call rest rfl
          rw [put] at limits
          exact limits.2
      refine ih liveNext fitNext ?_
      intro before later tail split
      exact within (call :: before) later tail (by rw [split]; rfl)

/-- Calls within limits succeed on the abstract map and return 0. -/
theorem CCall.code_of_withinLimits (laws : E.CmapLaws V) {state : E.State}
    {contents : Contents} (live : V.Live state db path contents)
    (fit : AllFit V contents) {call : CCall} (within : call.WithinLimits V db state)
    (coded : ∀ key, call ≠ .existsKey key)
    : call.Succeeds V db state ∧ (call.step db state).1.code = 0 := by
  have map := Engine.View.contents_of_live live
  cases call with
  | put key value => exact ⟨within.1, (laws.putWithRoom live within.1).1⟩
  | get key =>
      have bound : key ∈ contents := by simpa only [WithinLimits, map] using within
      obtain ⟨value, found⟩ := Finmap.mem_iff.mp bound
      exact ⟨within, (pmkvGet_of_fits laws live found (fit key value found)).1⟩
  | delete key =>
      have bound : key ∈ contents := by simpa only [WithinLimits, map] using within
      have code := (laws.remove key live).1
      rw [if_pos bound] at code
      exact ⟨within, code⟩
  | countAll cnt =>
      refine ⟨trivial, ?_⟩
      simp only [CCall.step, pmkvCountAll, laws.countAll cnt live]
      rfl
  | existsKey key => exact absurd rfl (coded key)

/-- A call that meets the code contract is within limits, except that a put's value may
still be too long: the raw codes for a full pool and an absent key are not 1.
-/
theorem CCall.withinLimits_of_code (laws : E.CmapLaws V) {state : E.State}
    {contents : Contents} (live : V.Live state db path contents) {call : CCall}
    (failing : ¬ call.Succeeds V db state → (call.step db state).1.code = 1)
    (fits : ∀ key value, call = .put key value → V.hasRoom state db key value = true
      → V.fits value.length maxValLen = true)
    : call.WithinLimits V db state := by
  have map := Engine.View.contents_of_live live
  cases call with
  | put key value =>
      cases room : V.hasRoom state db key value with
      | true => exact ⟨room, fits key value rfl room⟩
      | false =>
          have code := failing (by simp [Succeeds, room])
          have raw := (laws.putWithoutRoom live room).1
          exact absurd (raw.symm.trans code) laws.outOfMemory_distinct.2.1
  | get key =>
      by_contra absent
      have unbound : contents.lookup key = none :=
        Finmap.lookup_eq_none.mpr (by simpa only [WithinLimits, map] using absent)
      have raw : (pmkvGet E (some db) key state).status = pmemkvStatusNotFound :=
        laws.getUnbound maxValLen live unbound
      exact absurd (raw.symm.trans (failing absent)) (by decide)
  | delete key =>
      by_contra absent
      have raw := (laws.remove key live).1
      rw [if_neg (by simpa only [WithinLimits, map] using absent)] at raw
      exact absurd (raw.symm.trans (failing absent)) (by decide)
  | countAll | existsKey => trivial

/-- Values that agree with their existence test fit the read buffer. -/
theorem allFit_of_existsAgrees (laws : E.CmapLaws V) {state : E.State}
    {contents : Contents} (live : V.Live state db path contents)
    (agrees : ∀ key, ((CCall.existsKey key).step db state).1.code = 1
      ↔ ((CCall.get key).step db state).1.code = 0)
    : AllFit V contents := by
  intro key value found
  have exist : ((CCall.existsKey key).step db state).1.code = 1 := by
    simp [CCall.step, pmkvExists_of_live laws live key, Finmap.mem_of_lookup_eq_some found]
  obtain ⟨stored, lookup, fits⟩ :=
    (pmkvGet_status_ok_iff laws live key).mp ((agrees key).mp exist)
  cases found.symm.trans lookup
  exact fits

/-- Within limits, a read after a put returns the put value as long as nothing else writes
the key in between.
-/
theorem readsBack_of_withinLimits (laws : E.CmapLaws V) {state : E.State}
    {contents : Contents} (live : V.Live state db path contents) {key value : Bytes}
    (within : (CCall.put key value).WithinLimits V db state) (between : List CCall)
    (unwritten : ∀ call ∈ between, ¬ call.writes key)
    : ((CCall.get key).step db (after db (CCall.put key value :: between) state)).1
      = ⟨0, value⟩ := by
  obtain ⟨next, liveNext, _, inserted, _⟩ := (CCall.put key value).step_live laws live
  have bound : next.lookup key = some value := by
    rw [inserted key value rfl within.1, Finmap.lookup_insert]
  obtain ⟨final, liveFinal, kept⟩ :=
    after_lookup_unwritten laws between unwritten liveNext
  obtain ⟨ok, copied⟩ :=
    pmkvGet_of_fits laws liveFinal (kept.trans bound) within.2
  exact congrArg₂ CAnswer.mk ok copied

end Histories

/-- A history keeps the README's return-value contract exactly when every value in the
pool at its start fits the read buffer and each of its calls is within limits in the state
before it. Witness: fitting values are an invariant of calls within limits; conversely the
raw engine codes for a full pool and an absent key differ from 1, and a value that does
not fit is found by the existence test but not by the read.
-/
theorem returnContract_iff_withinLimits {E : Engine} {V : E.View} (laws : E.CmapLaws V)
    {state : E.State} {db : E.Db} {path : String} {contents : Contents}
    (live : V.Live state db path contents) (calls : List CCall)
    : ReturnContract V db state calls
      ↔ AllFit V contents
        ∧ ∀ before call rest, calls = before ++ call :: rest
            → call.WithinLimits V db (after db before state) := by
  constructor
  · intro contract
    refine ⟨allFit_of_existsAgrees laws live (contract.existsAgrees [] calls rfl), ?_⟩
    intro before call rest split
    obtain ⟨now, liveNow⟩ := after_live laws before live
    by_cases test : ∃ key, call = .existsKey key
    · obtain ⟨key, rfl⟩ := test
      trivial
    · have codes := contract.codes before call rest split (fun key same => test ⟨key, same⟩)
      refine CCall.withinLimits_of_code laws liveNow codes.2 ?_
      rintro key value rfl room
      obtain ⟨next, liveNext, _, inserted, _⟩ :=
        (CCall.put key value).step_live laws liveNow
      have agrees := contract.existsAgrees (before ++ [.put key value]) rest
        (by simpa using split)
      rw [after_append] at agrees
      have fit := allFit_of_existsAgrees laws liveNext agrees
      exact fit key value (by rw [inserted key value rfl room, Finmap.lookup_insert])
  · rintro ⟨fit, within⟩
    have prefixFit : ∀ before rest, calls = before ++ rest
        → ∃ now, V.Live (after db before state) db path now ∧ AllFit V now := by
      intro before rest split
      refine after_allFit laws before live fit ?_
      intro earlier call tail inner
      exact within earlier call (tail ++ rest) (by rw [split, inner]; simp)
    refine ⟨?_, ?_, ?_⟩
    · intro before call rest split coded
      obtain ⟨now, liveNow, fitNow⟩ := prefixFit before _ split
      obtain ⟨succeeds, code⟩ := CCall.code_of_withinLimits laws liveNow fitNow
        (within before call rest split) coded
      exact ⟨fun _ => code, fun failed => absurd succeeds failed⟩
    · intro before key value between rest split _ unwritten
      obtain ⟨now, liveNow, _⟩ := prefixFit before _ split
      rw [after_append]
      exact readsBack_of_withinLimits laws liveNow
        (within before (.put key value) (between ++ rest) split) between unwritten
    · intro before rest split key
      obtain ⟨now, liveNow, fitNow⟩ := prefixFit before rest split
      exact existsAgrees_of_allFit laws liveNow fitNow key

/-- A put followed by a read of the same key is within limits on an empty pool and keeps
the contract.
-/
theorem put_get_keeps_contract
    : ReturnContract tableView 0 (openedTable ∅) [.put [97] [1], .get [97]] := by
  refine (returnContract_iff_withinLimits tableEngine_cmapLaws (openedTable_live ∅) _).mpr
    ⟨by intro key value found; simp at found, ?_⟩
  intro before call rest split
  rcases before with _ | ⟨first, _ | ⟨second, more⟩⟩
  · obtain ⟨rfl, rfl⟩ := List.cons_eq_cons.mp split
    exact ⟨rfl, by decide⟩
  · simp only [List.cons_append, List.nil_append, List.cons.injEq] at split
    obtain ⟨rfl, rfl, rfl⟩ := split
    decide
  · simp at split

/-- Deleting an absent key of an empty pool returns the raw code 2, so the contract fails
on this one-call history.
-/
theorem delete_absent_breaks_contract
    : ((CCall.delete [97]).step (E := tableEngine) 0 (openedTable ∅)).1.code = 2
      ∧ ¬ ReturnContract tableView 0 (openedTable ∅) [.delete [97]] := by
  refine ⟨by decide, ?_⟩
  intro contract
  have code := (contract.codes [] (.delete [97]) [] rfl (by simp)).2 (by decide)
  exact absurd code (by decide)

end PMKVLab.Store
