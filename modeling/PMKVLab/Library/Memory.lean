import Mathlib.Data.List.TakeDrop

/-! Memory that can be read in part only: a cell outside the objects a program owns has no
value, so a computation that succeeds has stayed inside them.
-/

namespace PMKVLab.Library

/-- The readable cells, by their distance from the start of one object. -/
abbrev Memory (Cell : Type) := Int → Option Cell

namespace Memory

variable {Cell : Type}

/-- The memory of one array: nothing before it and nothing behind it. -/
def ofArray (cells : List Cell) : Memory Cell
  | .ofNat place => cells[place]?
  | .negSucc _ => none

/-- Reads consecutive cells. -/
def read (memory : Memory Cell) : Int → Nat → Option (List Cell)
  | _, 0 => some []
  | start, count + 1 => do
      let cell ← memory start
      let rest ← memory.read (start + 1) count
      return cell :: rest

/-- The cells from a place on are those of a text. -/
def Stores (memory : Memory Cell) (start : Int) : List Cell → Prop
  | [] => True
  | cell :: rest => memory start = some cell ∧ memory.Stores (start + 1) rest

variable {memory : Memory Cell} {start : Int}

theorem Stores.append {front back : List Cell}
    : memory.Stores start (front ++ back)
      ↔ memory.Stores start front ∧ memory.Stores (start + front.length) back := by
  induction front generalizing start with
  | nil => simp [Stores]
  | cons cell rest ih =>
      have moved : start + 1 + (rest.length : Int) = start + ((cell :: rest).length : Int) := by
        rw [List.length_cons]
        omega
      rw [List.cons_append, Stores, Stores, ih, and_assoc, moved]

theorem Stores.left {front back : List Cell} (stores : memory.Stores start (front ++ back))
    : memory.Stores start front :=
  (Stores.append.mp stores).1

theorem Stores.right {front back : List Cell} (stores : memory.Stores start (front ++ back))
    : memory.Stores (start + front.length) back :=
  (Stores.append.mp stores).2

theorem read_of_stores {text : List Cell} (stores : memory.Stores start text)
    : memory.read start text.length = some text := by
  induction text generalizing start with
  | nil => rfl
  | cons cell rest ih =>
      rw [List.length_cons, read, stores.1, ih stores.2]
      rfl

/-- An array stores what is left of it from each of its places on. -/
theorem ofArray_stores_drop (cells : List Cell) (place : Nat)
    : (ofArray cells).Stores place (cells.drop place) := by
  induction rest : cells.drop place generalizing place with
  | nil => trivial
  | cons cell later ih =>
      have here : cells[place]? = some cell := by
        rw [← List.head?_drop, rest, List.head?_cons]
      have next : cells.drop (place + 1) = later := by
        rw [← List.drop_drop, rest, List.drop_one, List.tail_cons]
      exact ⟨here, ih (place + 1) next⟩

/-- The part of an array that a text begins. -/
theorem ofArray_stores {cells text : List Cell} {place : Nat}
    (begins : text <+: cells.drop place)
    : (ofArray cells).Stores place text := by
  obtain ⟨later, whole⟩ := begins
  have stores := ofArray_stores_drop cells place
  rw [← whole] at stores
  exact stores.left

theorem ofArray_of_length_le {cells : List Cell} {place : Nat} (behind : cells.length ≤ place)
    : ofArray cells place = none :=
  List.getElem?_eq_none behind

end Memory

end PMKVLab.Library
