import Mathlib.Data.List.Basic
import Mathlib.Logic.Function.Basic

/-! Undo-log transactions on a heap of persistent objects. A transaction that is cut off
gives back what it registered, frees what it allocated, and may keep any part of what it
wrote elsewhere.
-/

namespace PMKVLab.Library

/-- The contents of the allocated objects. -/
abbrev Heap (Oid Object : Type) : Type := Oid → Option Object

/-- The steps of a transaction. -/
inductive TxStep (Oid Object : Type)
  | allocate (oid : Oid) (object : Object)
  | add (oid : Oid)
  | write (oid : Oid) (change : Object → Object)

/-- An open transaction: the heap it started from, the heap it sees, the objects it
allocated, the contents of the others at their registration, and its writes to objects that
were neither.
-/
structure Transaction (Oid Object : Type) where
  start : Heap Oid Object
  heap : Heap Oid Object
  fresh : List Oid := []
  snapshots : Heap Oid Object := fun _ => none
  loose : List (Oid × (Object → Object)) := []

namespace Transaction

variable {Oid Object : Type}

def begin (heap : Heap Oid Object) : Transaction Oid Object where
  start := heap
  heap := heap

/-- Undone, if the transaction is: allocated in it or registered. -/
def Logged (tx : Transaction Oid Object) (oid : Oid) : Prop :=
  oid ∈ tx.fresh ∨ (tx.snapshots oid).isSome

/-- What holds of a transaction that wrote only what it had logged; `known` was logged. -/
structure Undoable (known : List Oid) (tx : Transaction Oid Object) : Prop where
  allocated : ∀ oid ∈ tx.fresh, tx.start oid = none
  registered : ∀ oid object, tx.snapshots oid = some object → tx.start oid = some object
  untouched : ∀ oid, ¬ tx.Logged oid → tx.heap oid = tx.start oid
  logged : ∀ oid ∈ known, tx.Logged oid
  covered : tx.loose = []

theorem undoable_begin (heap : Heap Oid Object) : Undoable [] (begin heap) where
  allocated _ member := absurd member List.not_mem_nil
  registered _ _ found := nomatch found
  untouched _ _ := rfl
  logged _ member := absurd member List.not_mem_nil
  covered := rfl

/-- Every write is to an object that was allocated or registered before it; `known` are
those so far. Allocated objects are new, and registered ones exist.
-/
def Covered (heap : Heap Oid Object) : List Oid → List (TxStep Oid Object) → Prop
  | _, [] => True
  | known, .allocate oid _ :: rest => heap oid = none ∧ Covered heap (oid :: known) rest
  | known, .add oid :: rest => (heap oid).isSome ∧ Covered heap (oid :: known) rest
  | known, .write oid _ :: rest => oid ∈ known ∧ Covered heap known rest

theorem Covered.take {heap : Heap Oid Object} {steps : List (TxStep Oid Object)}
    {known : List Oid} (covered : Covered heap known steps) (count : Nat)
    : Covered heap known (steps.take count) := by
  induction steps generalizing known count with
  | nil =>
      rw [List.take_nil]
      trivial
  | cons step rest ih =>
      cases count with
      | zero => trivial
      | succ count =>
          cases step with
          | allocate | add | write => exact ⟨covered.1, ih covered.2 count⟩

variable [DecidableEq Oid]

instance (tx : Transaction Oid Object) (oid : Oid) : Decidable (tx.Logged oid) :=
  inferInstanceAs (Decidable (_ ∨ _))

def allocate (tx : Transaction Oid Object) (oid : Oid) (object : Object)
    : Transaction Oid Object :=
  { tx with
    heap := Function.update tx.heap oid (some object)
    fresh := oid :: tx.fresh }

/-- Registering an object again, or one of its own, changes nothing. -/
def add (tx : Transaction Oid Object) (oid : Oid) : Transaction Oid Object :=
  if tx.Logged oid then tx
  else { tx with snapshots := Function.update tx.snapshots oid (tx.heap oid) }

def write (tx : Transaction Oid Object) (oid : Oid) (change : Object → Object)
    : Transaction Oid Object :=
  { tx with
    heap := Function.update tx.heap oid ((tx.heap oid).map change)
    loose := if tx.Logged oid then tx.loose else tx.loose ++ [(oid, change)] }

def step (tx : Transaction Oid Object) : TxStep Oid Object → Transaction Oid Object
  | .allocate oid object => tx.allocate oid object
  | .add oid => tx.add oid
  | .write oid change => tx.write oid change

def run (tx : Transaction Oid Object) (steps : List (TxStep Oid Object))
    : Transaction Oid Object :=
  steps.foldl step tx

/-- A heap that an abort, or the recovery after a crash, may leave. -/
def Recovers (tx : Transaction Oid Object) (heap : Heap Oid Object) : Prop :=
  ∀ oid,
    if oid ∈ tx.fresh then heap oid = none
    else
      match tx.snapshots oid with
      | some object => heap oid = some object
      | none => ∃ kept : List (Oid × (Object → Object)),
          kept.Sublist (tx.loose.filter (·.1 = oid))
          ∧ heap oid = kept.foldl (fun object write => object.map write.2) (tx.start oid)

-----------------------------------------------------------------------------------------
-- Transactions that write only what they have logged
-----------------------------------------------------------------------------------------

variable {known : List Oid} {tx : Transaction Oid Object} {oid : Oid}

theorem Undoable.allocate (undoable : Undoable known tx) (new : tx.start oid = none)
    (object : Object)
    : Undoable (oid :: known) (tx.allocate oid object) where
  allocated := List.forall_mem_cons.mpr ⟨new, undoable.allocated⟩
  registered := undoable.registered
  untouched other free := by
    have different : other ≠ oid := fun same => free (.inl (same ▸ List.mem_cons_self))
    have before : ¬ tx.Logged other := fun logged =>
      free (logged.imp (List.mem_cons_of_mem oid) id)
    exact (Function.update_of_ne different _ _).trans (undoable.untouched other before)
  logged := List.forall_mem_cons.mpr ⟨.inl List.mem_cons_self, fun other member =>
    (undoable.logged other member).imp (List.mem_cons_of_mem oid) id⟩
  covered := undoable.covered

theorem Undoable.add (undoable : Undoable known tx) (existing : (tx.start oid).isSome)
    : Undoable (oid :: known) (tx.add oid) := by
  unfold Transaction.add
  by_cases before : tx.Logged oid
  · rw [if_pos before]
    exact { undoable with logged := List.forall_mem_cons.mpr ⟨before, undoable.logged⟩ }
  · rw [if_neg before]
    -- the contents are still those of the start
    have own : Function.update tx.snapshots oid (tx.heap oid) oid = tx.start oid :=
      (Function.update_self _ _ _).trans (undoable.untouched oid before)
    have grows (other : Oid) (logged : tx.Logged other)
        : other ∈ tx.fresh
          ∨ (Function.update tx.snapshots oid (tx.heap oid) other).isSome := by
      refine logged.imp_right fun found => ?_
      by_cases same : other = oid
      · subst same
        exact absurd logged before
      · rwa [Function.update_of_ne same]
    refine ⟨undoable.allocated, fun other object found => ?_, fun other free => ?_,
      List.forall_mem_cons.mpr ⟨.inr ?_, fun other member => ?_⟩, undoable.covered⟩
    · by_cases same : other = oid
      · subst same
        exact own.symm.trans found
      · have old : tx.snapshots other = some object :=
          (Function.update_of_ne same _ _).symm.trans found
        exact undoable.registered other object old
    · exact undoable.untouched other fun logged => free (grows other logged)
    · exact (congrArg Option.isSome own).trans existing
    · exact grows other (undoable.logged other member)

theorem Undoable.write (undoable : Undoable known tx) (member : oid ∈ known)
    (change : Object → Object)
    : Undoable known (tx.write oid change) where
  allocated := undoable.allocated
  registered := undoable.registered
  untouched other free := by
    have different : other ≠ oid := fun same => free (same ▸ undoable.logged oid member)
    exact (Function.update_of_ne different _ _).trans (undoable.untouched other free)
  logged := undoable.logged
  covered := (if_pos (undoable.logged oid member)).trans undoable.covered

@[simp]
theorem add_start (tx : Transaction Oid Object) (oid : Oid) : (tx.add oid).start = tx.start := by
  unfold add
  split <;> rfl

@[simp]
theorem add_heap (tx : Transaction Oid Object) (oid : Oid) : (tx.add oid).heap = tx.heap := by
  unfold add
  split <;> rfl

/-- Covered steps keep a transaction undoable, by induction on them. -/
theorem Undoable.run {steps : List (TxStep Oid Object)} (undoable : Undoable known tx)
    (covered : Covered tx.start known steps)
    : ∃ known, Undoable known (tx.run steps) ∧ (tx.run steps).start = tx.start := by
  induction steps generalizing tx known with
  | nil => exact ⟨known, undoable, rfl⟩
  | cons step rest ih =>
      cases step with
      | allocate oid object => exact ih (undoable.allocate covered.1 object) covered.2
      | add oid =>
          have later : Covered (tx.add oid).start (oid :: known) rest := by
            rw [add_start]
            exact covered.2
          obtain ⟨final, kept, same⟩ := ih (undoable.add covered.1) later
          exact ⟨final, kept, same.trans (add_start tx oid)⟩
      | write oid change => exact ih (undoable.write covered.1 change) covered.2

/-- Recovery undoes an undoable transaction, and leaves nothing else. -/
theorem Undoable.recovers_iff (undoable : Undoable known tx) {heap : Heap Oid Object}
    : tx.Recovers heap ↔ heap = tx.start := by
  constructor
  · intro recovered
    funext oid
    have left := recovered oid
    split at left
    · next fresh => rw [left, undoable.allocated oid fresh]
    · split at left
      · next object found => rw [left, undoable.registered oid object found]
      · obtain ⟨kept, sublist, same⟩ := left
        rw [undoable.covered, List.filter_nil, List.sublist_nil] at sublist
        rw [same, sublist, List.foldl_nil]
  · rintro rfl oid
    split
    · next fresh => exact undoable.allocated oid fresh
    · split
      · next object found => exact undoable.registered oid object found
      · exact ⟨[], List.nil_sublist _, rfl⟩

/-- A transaction of covered steps that is cut off anywhere leaves its heap as it was. -/
theorem recovers_start_iff {heap after : Heap Oid Object} {steps : List (TxStep Oid Object)}
    (covered : Covered heap [] steps) (count : Nat)
    : ((begin heap).run (steps.take count)).Recovers after ↔ after = heap := by
  obtain ⟨known, undoable, same⟩ := (undoable_begin heap).run (covered.take count)
  rw [undoable.recovers_iff, same]
  rfl

end Transaction

end PMKVLab.Library
