import Mathlib.Algebra.Group.Nat.Defs
import PMKVLab.Library.UndoLog

/-! `linked_list.c`: the transaction that appends an element to the persistent list, cut off
anywhere or committed, and the loop that prints the list.
-/

namespace PMKVLab.Example

open PMKVLab.Library

variable {Oid : Type}

-----------------------------------------------------------------------------------------
-- The program
-----------------------------------------------------------------------------------------

/-- `struct list_head`, the root object, without its lock. A null pointer is `none`. -/
structure ListHead (Oid : Type) where
  numElements : Int32
  head : Option Oid
  tail : Option Oid

/-- `struct list_elem`. -/
structure ListElem (Oid : Type) where
  val : Int32
  next : Option Oid

inductive Object (Oid : Type)
  | listHead (object : ListHead Oid)
  | listElem (object : ListElem Oid)

/-- An assignment to fields of the root object. -/
def onHead (change : ListHead Oid → ListHead Oid) : Object Oid → Object Oid
  | .listHead object => .listHead (change object)
  | other => other

/-- An assignment to fields of an element. -/
def onElem (change : ListElem Oid → ListElem Oid) : Object Oid → Object Oid
  | .listElem object => .listElem (change object)
  | other => other

/-- The branch of the transaction that links the new element. -/
def linkSteps (root node : Oid) : Option Oid → List (TxStep Oid (Object Oid))
  | some tail =>
      [.add tail, .write tail (onElem fun elem => { elem with next := some node })]
  | none => [.write root (onHead fun object => { object with head := some node })]

/-- The body of the transaction, from the tail that it read first and the object that
`TX_ZNEW` gave it.
-/
def appendSteps (root node : Oid) (tail : Option Oid) : List (TxStep Oid (Object Oid)) :=
  [.allocate node (.listElem ⟨0, none⟩),
    .write node (onElem fun elem => { elem with val := 100 }),
    .add root]
  ++ linkSteps root node tail
  ++ [.write root (onHead fun object => { object with tail := some node }),
    .write root (onHead fun object => { object with numElements := object.numElements + 1 })]

variable [DecidableEq Oid]

/-- One execution of the program on a heap: whether it commits, and the heap it leaves. The
object of an allocation that happens was free before.
-/
inductive Executes (root : Oid) (heap : Heap Oid (Object Oid))
    : Bool → Heap Oid (Object Oid) → Prop
  | commits {object : ListHead Oid} {node : Oid} (read : heap root = some (.listHead object))
      (free : heap node = none)
    : Executes root heap true
        ((Transaction.begin heap).run (appendSteps root node object.tail)).heap
  | cutOff {object : ListHead Oid} {node : Oid} {after : Heap Oid (Object Oid)}
      (read : heap root = some (.listHead object)) (count : Nat)
      (free : 0 < count → heap node = none)
      (recovered : ((Transaction.begin heap).run
        ((appendSteps root node object.tail).take count)).Recovers after)
    : Executes root heap false after

/-- A new pool: `POBJ_ROOT` allocates a zeroed root object. -/
def newPool (root : Oid) : Heap Oid (Object Oid) :=
  Function.update (fun _ => none) root (some (.listHead ⟨0, none, none⟩))

/-- A sequence of executions on a new pool, with the number of those that committed. -/
inductive Executions (root : Oid) : Nat → Heap Oid (Object Oid) → Prop
  | new : Executions root 0 (newPool root)
  | commit {commits : Nat} {heap after : Heap Oid (Object Oid)}
      (earlier : Executions root commits heap) (executes : Executes root heap true after)
    : Executions root (commits + 1) after
  | cutOff {commits : Nat} {heap after : Heap Oid (Object Oid)}
      (earlier : Executions root commits heap) (executes : Executes root heap false after)
    : Executions root commits after

/-- The printing loop, for at most `fuel` rounds: the printed values, or `none` when it is
not at its end by then or follows a pointer to no element.
-/
def printed (heap : Heap Oid (Object Oid)) : Nat → Option Oid → Option (List Int32)
  | _, none => some []
  | 0, some _ => none
  | fuel + 1, some tmp =>
      match heap tmp with
      | some (.listElem elem) => (printed heap fuel elem.next).map (elem.val :: ·)
      | _ => none

-----------------------------------------------------------------------------------------
-- Well-formed lists
-----------------------------------------------------------------------------------------

/-- Following `next` from a pointer visits the elements and ends in a null pointer. -/
inductive Visits (heap : Heap Oid (Object Oid)) : Option Oid → List Oid → Prop
  | done : Visits heap none []
  | next {oid : Oid} {elem : ListElem Oid} {rest : List Oid}
      (found : heap oid = some (.listElem elem)) (later : Visits heap elem.next rest)
    : Visits heap (some oid) (oid :: rest)

/-- The list behind a root object: its elements, and how the fields of the root and the
number of commits belong to them.
-/
structure ListAt (root : Oid) (heap : Heap Oid (Object Oid)) (commits : Nat)
    (object : ListHead Oid) (elements : List Oid) : Prop where
  found : heap root = some (.listHead object)
  visits : Visits heap object.head elements
  distinct : elements.Nodup
  tail : object.tail = elements.getLast?
  count : elements.length = commits
  stored : object.numElements = Int32.ofNat commits
  values : ∀ oid ∈ elements, ∃ next, heap oid = some (.listElem ⟨100, next⟩)

section Visits

omit [DecidableEq Oid]

/-- Only the empty list is visited from a null pointer. -/
theorem Visits.eq_nil_iff {heap : Heap Oid (Object Oid)} {start : Option Oid}
    {elements : List Oid} (visits : Visits heap start elements)
    : start = none ↔ elements = [] := by
  cases visits <;> simp

/-- Linking a new element behind the last one appends it to what is visited, by induction on
the elements.
-/
theorem Visits.append {heap after : Heap Oid (Object Oid)} {start : Option Oid} {last node : Oid}
    {elements : List Oid} (visits : Visits heap start elements) (distinct : elements.Nodup)
    (ends : elements.getLast? = some last)
    (kept : ∀ oid ∈ elements, oid ≠ last → after oid = heap oid)
    (linked : ∀ elem, heap last = some (.listElem elem)
      → after last = some (.listElem { elem with next := some node }))
    (new : after node = some (.listElem ⟨100, none⟩))
    : Visits after start (elements ++ [node]) := by
  induction visits with
  | done => cases ends
  | @next oid elem rest found later ih =>
      cases rest with
      | nil =>
          cases ends
          have linkedElem := linked elem found
          exact .next linkedElem (.next new .done)
      | cons second others =>
          have endsLater : (second :: others).getLast? = some last := by
            rwa [List.getLast?_cons_cons] at ends
          have different : oid ≠ last := by
            rintro rfl
            exact (List.nodup_cons.mp distinct).1 (List.mem_of_getLast? endsLater)
          have rest := ih (List.nodup_cons.mp distinct).2 endsLater
            fun other member => kept other (List.mem_cons_of_mem oid member)
          exact .next ((kept oid List.mem_cons_self different).trans found) rest

/-- The loop prints the values of the elements it visits, and ends after as many rounds. -/
theorem Visits.printed {heap : Heap Oid (Object Oid)} {start : Option Oid}
    {elements : List Oid} {value : Int32} (visits : Visits heap start elements)
    (values : ∀ oid ∈ elements, ∃ next, heap oid = some (.listElem ⟨value, next⟩))
    {fuel : Nat} (enough : elements.length ≤ fuel)
    : printed heap fuel start = some (List.replicate elements.length value) := by
  induction visits generalizing fuel with
  | done => cases fuel <;> rfl
  | @next oid elem rest found later ih =>
      obtain ⟨next, known⟩ := values oid List.mem_cons_self
      cases found.symm.trans known
      cases fuel with
      | zero => cases enough
      | succ fuel =>
          have others := ih (fun other member => values other (List.mem_cons_of_mem oid member))
            (Nat.le_of_succ_le_succ enough)
          simp only [Example.printed, found, others, Option.map_some, List.length_cons,
            List.replicate_succ]

end Visits

-----------------------------------------------------------------------------------------
-- One execution
-----------------------------------------------------------------------------------------

/-- The heap of a committed execution. -/
def committed (heap : Heap Oid (Object Oid)) (root node : Oid) (tail : Option Oid)
    : Heap Oid (Object Oid) :=
  ((Transaction.begin heap).run (appendSteps root node tail)).heap

/-- What the commit writes, object by object. -/
theorem committed_apply {heap : Heap Oid (Object Oid)} {root node : Oid} {tail : Option Oid}
    {object : ListHead Oid} (found : heap root = some (.listHead object)) (other : root ≠ node)
    (apart : ∀ last, tail = some last → last ≠ root ∧ last ≠ node) (oid : Oid)
    : committed heap root node tail oid
      = if oid = root then
          some (.listHead ⟨object.numElements + 1, if tail = none then some node else object.head,
            some node⟩)
        else if oid = node then some (.listElem ⟨100, none⟩)
        else if tail = some oid then
          (heap oid).map (onElem fun elem => { elem with next := some node })
        else heap oid := by
  have differs : node ≠ root := other.symm
  cases tail with
  | none =>
      simp only [committed, appendSteps, linkSteps, Transaction.run, Transaction.step,
        Transaction.begin, Transaction.allocate, Transaction.write, Transaction.add_heap,
        List.foldl_append, List.foldl_cons, List.foldl_nil, Function.update_apply]
      by_cases isRoot : oid = root
      · simp [isRoot, found, other, onHead]
      · by_cases isNode : oid = node <;> simp [isRoot, isNode, differs, onElem]
  | some last =>
      obtain ⟨notRoot, notNode⟩ := apart last rfl
      simp only [committed, appendSteps, linkSteps, Transaction.run, Transaction.step,
        Transaction.begin, Transaction.allocate, Transaction.write, Transaction.add_heap,
        List.foldl_append, List.foldl_cons, List.foldl_nil, Function.update_apply]
      by_cases isRoot : oid = root
      · simp [isRoot, found, other, notRoot.symm, onHead]
      · by_cases isNode : oid = node
        · simp [isNode, differs, notNode.symm, onElem]
        · by_cases isLast : oid = last
          · simp [isLast, notRoot, notNode]
          · simp [isRoot, isNode, isLast, Ne.symm isLast]

section Commit

variable {root node : Oid} {heap : Heap Oid (Object Oid)} {commits : Nat}
    {object : ListHead Oid} {elements : List Oid}

omit [DecidableEq Oid] in
/-- The root, the elements and a free object are different. -/
theorem ListAt.apart (list : ListAt root heap commits object elements)
    (free : heap node = none)
    : root ≠ node ∧ ∀ oid ∈ elements, oid ≠ root ∧ oid ≠ node := by
  refine ⟨?_, fun oid member => ?_⟩
  · rintro rfl
    cases free.symm.trans list.found
  · obtain ⟨next, found⟩ := list.values oid member
    constructor
    · rintro rfl
      cases found.symm.trans list.found
    · rintro rfl
      cases free.symm.trans found

/-- The heap of a commit on a list, object by object. -/
theorem ListAt.committed_apply (list : ListAt root heap commits object elements)
    (free : heap node = none) (oid : Oid)
    : committed heap root node object.tail oid
      = if oid = root then
          some (.listHead ⟨object.numElements + 1,
            if object.tail = none then some node else object.head, some node⟩)
        else if oid = node then some (.listElem ⟨100, none⟩)
        else if object.tail = some oid then
          (heap oid).map (onElem fun elem => { elem with next := some node })
        else heap oid := by
  obtain ⟨rootNode, outside⟩ := list.apart free
  exact Example.committed_apply list.found rootNode
    (fun last isLast => outside last (List.mem_of_getLast? (list.tail.symm.trans isLast))) oid

/-- The commit stores the new element. -/
theorem ListAt.committed_node (list : ListAt root heap commits object elements)
    (free : heap node = none)
    : committed heap root node object.tail node = some (.listElem ⟨100, none⟩) := by
  rw [list.committed_apply free, if_neg (list.apart free).1.symm, if_pos rfl]

/-- The commit links the new element behind the last one and leaves the others alone. -/
theorem ListAt.committed_element (list : ListAt root heap commits object elements)
    (free : heap node = none) {oid : Oid} (member : oid ∈ elements)
    : committed heap root node object.tail oid
      = if object.tail = some oid then
          (heap oid).map (onElem fun elem => { elem with next := some node })
        else heap oid := by
  obtain ⟨notRoot, notNode⟩ := (list.apart free).2 oid member
  rw [list.committed_apply free, if_neg notRoot, if_neg notNode]

/-- From the new head one visits the old elements and then the new one. -/
theorem ListAt.committed_visits (list : ListAt root heap commits object elements)
    (free : heap node = none)
    : Visits (committed heap root node object.tail)
        (if object.tail = none then some node else object.head) (elements ++ [node]) := by
  cases ends : object.tail with
  | none =>
      have empty : elements = [] := by
        rw [← List.getLast?_eq_none_iff, ← list.tail, ends]
      rw [empty, if_pos rfl, ← ends]
      exact .next (list.committed_node free) .done
  | some last =>
      have isLast := list.tail.symm.trans ends
      rw [if_neg (Option.some_ne_none last), ← ends]
      refine list.visits.append list.distinct isLast (fun oid member different => ?_)
        (fun elem found => ?_) (list.committed_node free)
      · have notTail : object.tail ≠ some oid := by
          rw [ends]
          exact fun same => different (Option.some.inj same).symm
        rw [list.committed_element free member, if_neg notTail]
      · rw [list.committed_element free (List.mem_of_getLast? isLast), if_pos ends, found]
        rfl

/-- A commit appends its new element to the list. -/
theorem ListAt.commit (list : ListAt root heap commits object elements)
    (free : heap node = none)
    : ∃ object', ListAt root (committed heap root node object.tail) (commits + 1) object'
        (elements ++ [node]) := by
  refine ⟨⟨object.numElements + 1, if object.tail = none then some node else object.head,
    some node⟩, ⟨?_, list.committed_visits free, ?_, ?_, ?_, ?_, ?_⟩⟩
  · rw [list.committed_apply free, if_pos rfl]
  · refine List.nodup_append.mpr ⟨list.distinct, by simp, ?_⟩
    intro oid member other isNew
    rw [List.mem_singleton.mp isNew]
    exact ((list.apart free).2 oid member).2
  · rw [List.getLast?_concat]
  · rw [List.length_append, list.count, List.length_singleton]
  · rw [list.stored, Int32.ofNat_add]
    rfl
  · intro oid member
    rcases List.mem_append.mp member with old | isNew
    · obtain ⟨next, found⟩ := list.values oid old
      rw [list.committed_element free old, found]
      split
      · exact ⟨some node, rfl⟩
      · exact ⟨next, rfl⟩
    · rw [List.mem_singleton.mp isNew]
      exact ⟨none, list.committed_node free⟩

end Commit

omit [DecidableEq Oid] in
/-- The body of the transaction writes only what it has logged, when the objects it logs
exist.
-/
theorem covered_of_isSome {root node : Oid} {heap : Heap Oid (Object Oid)} {tail : Option Oid}
    (free : heap node = none) (rootExists : (heap root).isSome)
    (tailExists : ∀ last, tail = some last → (heap last).isSome)
    : Transaction.Covered heap [] (appendSteps root node tail) := by
  cases tail with
  | none =>
      exact ⟨free, List.mem_cons_self, rootExists, List.mem_cons_self, List.mem_cons_self,
        List.mem_cons_self, trivial⟩
  | some last =>
      exact ⟨free, List.mem_cons_self, rootExists, tailExists last rfl, List.mem_cons_self,
        List.mem_cons_of_mem last List.mem_cons_self,
        List.mem_cons_of_mem last List.mem_cons_self, trivial⟩

omit [DecidableEq Oid] in
/-- The objects of a list exist. -/
theorem appendSteps_covered {root node : Oid} {heap : Heap Oid (Object Oid)} {commits : Nat}
    {object : ListHead Oid} {elements : List Oid}
    (list : ListAt root heap commits object elements) (free : heap node = none)
    : Transaction.Covered heap [] (appendSteps root node object.tail) := by
  refine covered_of_isSome free ?_ ?_
  · rw [list.found]
    rfl
  · intro last ends
    obtain ⟨next, found⟩ := list.values last
      (List.mem_of_getLast? (list.tail.symm.trans ends))
    rw [found]
    rfl

/-- An execution that is cut off leaves the heap as it was. -/
theorem ListAt.cutOff {root : Oid} {heap after : Heap Oid (Object Oid)} {commits : Nat}
    {object : ListHead Oid} {elements : List Oid}
    (list : ListAt root heap commits object elements)
    (executes : Executes root heap false after)
    : after = heap := by
  cases executes with
  | @cutOff read node _ found count free recovered =>
      cases found.symm.trans list.found
      cases count with
      | zero =>
          have covered : Transaction.Covered heap [] ([] : List (TxStep Oid (Object Oid))) :=
            trivial
          exact (Transaction.recovers_start_iff covered 0).mp recovered
      | succ count =>
          have covered := appendSteps_covered list (free (Nat.succ_pos count))
          exact (Transaction.recovers_start_iff covered (count + 1)).mp recovered

/-- Every sequence of executions leaves a list, by induction on the sequence. -/
theorem Executions.listAt {root : Oid} {commits : Nat} {heap : Heap Oid (Object Oid)}
    (executions : Executions root commits heap)
    : ∃ object elements, ListAt root heap commits object elements := by
  induction executions with
  | new =>
      refine ⟨⟨0, none, none⟩, [], ?_⟩
      exact {
        found := Function.update_self _ _ _
        visits := .done
        distinct := List.nodup_nil
        tail := rfl
        count := rfl
        stored := rfl
        values := fun _ member => absurd member List.not_mem_nil }
  | @commit commits heap _ earlier executes ih =>
      obtain ⟨object, elements, list⟩ := ih
      cases executes with
      | @commits read node found free =>
          cases found.symm.trans list.found
          obtain ⟨appended, longer⟩ := list.commit free
          exact ⟨appended, elements ++ [node], longer⟩
  | @cutOff commits heap _ earlier executes ih =>
      obtain ⟨object, elements, list⟩ := ih
      rw [list.cutOff executes]
      exact ⟨object, elements, list⟩

-----------------------------------------------------------------------------------------
-- Sequences of executions
-----------------------------------------------------------------------------------------

/-- A well-formed list: from the head one visits pairwise distinct elements and gets to a
null pointer after `num_elements` steps, the last of them is the tail, and both pointers are
null exactly for the empty list.
-/
structure WellFormed (heap : Heap Oid (Object Oid)) (object : ListHead Oid)
    (elements : List Oid) : Prop where
  visits : Visits heap object.head elements
  distinct : elements.Nodup
  steps : (elements.length : Int) = object.numElements.toInt
  tail : object.tail = elements.getLast?
  headNull : object.head = none ↔ object.tail = none
  tailNull : object.tail = none ↔ object.numElements = 0

/-- After any sequence of executions, fewer than 2^31 of which committed, the list is well
formed, has one element for each commit, and the printing loop ends. Witness: a transaction
that is cut off leaves the heap as it was, and a commit appends one element.
-/
theorem executions_wellFormed (root : Oid) (commits : Nat) (heap : Heap Oid (Object Oid))
    (executions : Executions root commits heap) (few : commits < 2 ^ 31)
    : ∃ object elements, heap root = some (.listHead object)
      ∧ WellFormed heap object elements
      ∧ object.numElements.toInt = commits
      ∧ ∀ fuel, commits ≤ fuel
        → printed heap fuel object.head = some (List.replicate commits 100) := by
  obtain ⟨object, elements, list⟩ := executions.listAt
  have stored : object.numElements.toInt = commits := by
    rw [list.stored, Int32.toInt_ofNat_of_lt few]
  have noTail : object.tail = none ↔ elements = [] := by
    rw [list.tail, List.getLast?_eq_none_iff]
  have noCount : object.numElements = 0 ↔ elements = [] := by
    rw [← List.length_eq_zero_iff, list.count, ← Int32.toInt_inj, stored]
    simp
  refine ⟨object, elements, list.found, ?_, stored, fun fuel enough => ?_⟩
  · exact {
      visits := list.visits
      distinct := list.distinct
      steps := by rw [list.count, stored]
      tail := list.tail
      headNull := list.visits.eq_nil_iff.trans noTail.symm
      tailNull := noTail.trans noCount.symm }
  · rw [← list.count] at enough ⊢
    exact list.visits.printed list.values enough

/-- A pool after one commit. -/
def oneElement : Heap Nat (Object Nat) := committed (newPool 0) 0 1 none

/-- One execution that commits and one that is cut off behind its registration of the tail
leave a list of one element.
-/
theorem commit_then_cutOff_wellFormed
    : Executions 0 1 oneElement
      ∧ ∃ object elements, oneElement 0 = some (.listHead object)
        ∧ WellFormed oneElement object elements
        ∧ object.numElements.toInt = 1
        ∧ ∀ fuel, 1 ≤ fuel → printed oneElement fuel object.head = some [100] := by
  have empty : newPool 0 0 = some (.listHead ⟨0, none, none⟩) := rfl
  have unused : newPool 0 1 = none := rfl
  have commit : Executes 0 (newPool 0) true oneElement := by
    -- the head that was read is known before the heaps are compared
    have ran := Executes.commits empty unused
    exact ran
  have one : Executions 0 1 oneElement := .commit .new commit
  have root : oneElement 0 = some (.listHead ⟨0 + 1, some 1, some 1⟩) := rfl
  have tail : oneElement 1 = some (.listElem ⟨100, none⟩) := rfl
  have free : oneElement 2 = none := rfl
  have covered : Transaction.Covered oneElement [] (appendSteps 0 2 (some 1)) := by
    have rootExists : (oneElement 0).isSome := by
      rw [root]
      rfl
    have tailExists : ∀ last, some 1 = some last → (oneElement last).isSome := by
      intro last ends
      rw [← Option.some.inj ends, tail]
      rfl
    exact covered_of_isSome free rootExists tailExists
  have cut : Executes 0 oneElement false oneElement :=
    .cutOff root 4 (fun _ => free) ((Transaction.recovers_start_iff covered 4).mpr rfl)
  have two : Executions 0 1 oneElement := .cutOff one cut
  exact ⟨two, executions_wellFormed 0 1 oneElement two (by decide)⟩

end PMKVLab.Example
