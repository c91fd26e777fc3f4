import Mathlib.Data.Finmap
import Mathlib.Data.Finset.Card

/-! Finite maps with a constant value type: point lookups, bulk updates, and the counting
criterion that decides inclusion in an enumerated map.
-/

namespace PMKVLab.Library

variable {Key Value Index : Type} [DecidableEq Key]

/-- A finite map from keys to values of one type. -/
abbrev FiniteMap (Key Value : Type) := Finmap (fun _ : Key => Value)

-----------------------------------------------------------------------------------------
-- Point lookups after one update
-----------------------------------------------------------------------------------------

/-- Lookup after one insertion, split on whether the inserted key is asked for. -/
theorem lookup_insert_eq (store : FiniteMap Key Value) (key other : Key) (value : Value)
    : (store.insert key value).lookup other
      = if other = key then some value else store.lookup other := by
  by_cases same : other = key
  · subst same
    simp
  · simp [same, Finmap.lookup_insert_of_ne store same]

/-- Lookup after one erasure, split on whether the erased key is asked for. -/
theorem lookup_erase_eq (store : FiniteMap Key Value) (key other : Key)
    : (store.erase key).lookup other
      = if other = key then none else store.lookup other := by
  by_cases same : other = key
  · subst same
    simp
  · simp [same, Finmap.lookup_erase_ne same]

/-- Erasing an unbound key changes nothing, by comparing all lookups. -/
theorem erase_of_unbound {store : FiniteMap Key Value} {key : Key}
    (unbound : store.lookup key = none)
    : store.erase key = store := by
  apply Finmap.ext_lookup
  intro other
  rw [lookup_erase_eq]
  split
  · next same => rw [same, unbound]
  · rfl

-----------------------------------------------------------------------------------------
-- Bulk updates
-----------------------------------------------------------------------------------------

/-- Bind every listed key to one value. -/
def fill (value : Value) (keys : List Key) (store : FiniteMap Key Value)
    : FiniteMap Key Value :=
  keys.foldl (fun current key => current.insert key value) store

/-- Unbind every listed key. -/
def drain (keys : List Key) (store : FiniteMap Key Value) : FiniteMap Key Value :=
  keys.foldl (fun current key => current.erase key) store

/-- A filled map answers the value on listed keys and the old map elsewhere, by induction
on the key list.
-/
theorem lookup_fill (value : Value) (keys : List Key) (store : FiniteMap Key Value)
    (key : Key)
    : (fill value keys store).lookup key
      = if key ∈ keys then some value else store.lookup key := by
  induction keys generalizing store with
  | nil => simp [fill]
  | cons head rest ih =>
      have step : fill value (head :: rest) store = fill value rest (store.insert head value) := rfl
      rw [step, ih, lookup_insert_eq]
      by_cases later : key ∈ rest
      · simp [later]
      · simp [later]

/-- A drained map answers nothing on listed keys and the old map elsewhere, by induction
on the key list.
-/
theorem lookup_drain (keys : List Key) (store : FiniteMap Key Value) (key : Key)
    : (drain keys store).lookup key = if key ∈ keys then none else store.lookup key := by
  induction keys generalizing store with
  | nil => simp [drain]
  | cons head rest ih =>
      have step : drain (head :: rest) store = drain rest (store.erase head) := rfl
      rw [step, ih, lookup_erase_eq]
      by_cases later : key ∈ rest
      · simp [later]
      · simp [later]

-----------------------------------------------------------------------------------------
-- Inclusion decided by counting agreements
-----------------------------------------------------------------------------------------

/-- Every binding of `store` is one of the enumerated bindings `key i ↦ value i`. -/
def SubmapOf (store : FiniteMap Key Value) (indices : List Index) (key : Index → Key)
    (value : Index → Value)
    : Prop :=
  ∀ bound found, store.lookup bound = some found
    → ∃ index ∈ indices, bound = key index ∧ found = value index

/-- The number of enumerated bindings that `store` contains. -/
def agreements [DecidableEq Value] (store : FiniteMap Key Value) (indices : List Index)
    (key : Index → Key) (value : Index → Value)
    : Nat :=
  indices.countP (fun index => store.lookup (key index) = some (value index))

/-- The keys of the enumerated bindings that `store` contains. -/
def agreedKeys [DecidableEq Value] (store : FiniteMap Key Value) (indices : List Index)
    (key : Index → Key) (value : Index → Value)
    : List Key :=
  (indices.filter (fun index => store.lookup (key index) = some (value index))).map key

/-- Agreed keys are bound in the map, since each carries a successful lookup. -/
theorem agreedKeys_subset [DecidableEq Value] (store : FiniteMap Key Value)
    (indices : List Index) (key : Index → Key) (value : Index → Value)
    : (agreedKeys store indices key value).toFinset ⊆ store.keys := by
  intro bound member
  simp only [agreedKeys, List.mem_toFinset, List.mem_map, List.mem_filter,
    decide_eq_true_eq] at member
  obtain ⟨index, ⟨_, found⟩, rfl⟩ := member
  exact Finmap.mem_keys.mpr (Finmap.mem_of_lookup_eq_some found)

/-- With distinct enumerated keys the agreement count is the number of agreed keys. -/
theorem card_agreedKeys [DecidableEq Value] (store : FiniteMap Key Value)
    {indices : List Index} {key : Index → Key} (value : Index → Value)
    (distinct : (indices.map key).Nodup)
    : (agreedKeys store indices key value).toFinset.card
      = agreements store indices key value := by
  have nodup : (agreedKeys store indices key value).Nodup :=
    (List.filter_sublist.map key).nodup distinct
  rw [List.toFinset_card_of_nodup nodup, agreedKeys, List.length_map, agreements,
    List.countP_eq_length_filter]

/-- The map is included in the enumeration exactly when it has as many bindings as
agreements. Witness: the agreed keys form a subset of the bound keys, and equal
cardinality forces equality of the two sets.
-/
theorem submapOf_iff_card [DecidableEq Value] (store : FiniteMap Key Value)
    {indices : List Index} {key : Index → Key} {value : Index → Value}
    (distinct : (indices.map key).Nodup)
    : SubmapOf store indices key value
      ↔ store.keys.card = agreements store indices key value := by
  rw [← card_agreedKeys store value distinct]
  constructor
  · intro included
    congr 1
    apply Finset.Subset.antisymm _ (agreedKeys_subset store indices key value)
    intro bound member
    obtain ⟨found, lookup⟩ := Finmap.mem_iff.mp (Finmap.mem_keys.mp member)
    obtain ⟨index, listed, rfl, rfl⟩ := included bound found lookup
    simp only [agreedKeys, List.mem_toFinset, List.mem_map, List.mem_filter,
      decide_eq_true_eq]
    exact ⟨index, ⟨listed, lookup⟩, rfl⟩
  · intro equal bound found lookup
    have keysEq := Finset.eq_of_subset_of_card_le
      (agreedKeys_subset store indices key value) (Nat.le_of_eq equal)
    have member : bound ∈ store.keys :=
      Finmap.mem_keys.mpr (Finmap.mem_of_lookup_eq_some lookup)
    rw [← keysEq] at member
    simp only [agreedKeys, List.mem_toFinset, List.mem_map, List.mem_filter,
      decide_eq_true_eq] at member
    obtain ⟨index, ⟨listed, agreed⟩, rfl⟩ := member
    exact ⟨index, listed, rfl, Option.some.inj (lookup.symm.trans agreed)⟩

end PMKVLab.Library
