import Mathlib.Algebra.Group.Nat.Defs
import Mathlib.Data.List.TakeDrop

/-! Allocated arrays that are filled from the front: a write or a read that leaves the
allocation has no result, and neither has a read of a cell that was never written.
-/

namespace PMKVLab.Library

/-- The bytes of an ASCII text. -/
def ascii (text : String) : List UInt8 := text.toList.map (fun c => UInt8.ofNat c.toNat)

/-- An allocation; a cell that was not written yet is `none`. -/
abbrev Buffer (Cell : Type) := List (Option Cell)

namespace Buffer

variable {Cell : Type}

/-- A new allocation of the given size. -/
def allocate (size : Nat) : Buffer Cell := List.replicate size none

/-- Copies cells into the allocation from an offset on. -/
def store (buffer : Buffer Cell) (offset : Nat) (cells : List Cell) : Option (Buffer Cell) :=
  if offset + cells.length ≤ buffer.length then
    some (buffer.take offset ++ cells.map some ++ buffer.drop (offset + cells.length))
  else none

/-- Reads cells from an offset on. -/
def load (buffer : Buffer Cell) (offset count : Nat) : Option (List Cell) :=
  if offset + count ≤ buffer.length then ((buffer.drop offset).take count).allSome
  else none

/-- An allocation whose front has been written and whose last cells have not. -/
def filled (front : List Cell) (rest : Nat) : Buffer Cell :=
  front.map some ++ List.replicate rest none

@[simp]
theorem length_allocate (size : Nat) : (allocate size : Buffer Cell).length = size := by
  simp [allocate]

@[simp]
theorem length_filled (front : List Cell) (rest : Nat)
    : (filled front rest).length = front.length + rest := by
  simp [filled]

theorem allocate_eq_filled (size : Nat) : (allocate size : Buffer Cell) = filled [] size :=
  rfl

/-- A store stays inside the allocation and keeps its size. -/
theorem inside_of_store {buffer next : Buffer Cell} {offset : Nat} {cells : List Cell}
    (stored : buffer.store offset cells = some next)
    : offset + cells.length ≤ buffer.length ∧ next.length = buffer.length := by
  unfold store at stored
  split at stored
  · next inside =>
      cases stored
      refine ⟨inside, ?_⟩
      simp
      omega
  · cases stored

/-- Writing right behind the written front extends it. -/
theorem store_filled {front cells : List Cell} {rest left offset : Nat}
    (behind : offset = front.length) (room : rest = cells.length + left)
    : (filled front rest).store offset cells = some (filled (front ++ cells) left) := by
  subst behind
  rw [store, if_pos (by simp [room])]
  have before : (filled front rest).take front.length = front.map some := by
    simp [filled]
  have after : (filled front rest).drop (front.length + cells.length)
      = List.replicate left none := by
    simp [filled, List.drop_append, room]
  rw [before, after, filled, List.map_append]

/-- Reading back what was written. -/
theorem load_filled (front cells back : List Cell) {rest offset count : Nat}
    (start : offset = front.length) (size : count = cells.length)
    : (filled (front ++ (cells ++ back)) rest).load offset count = some cells := by
  subst start
  subst size
  rw [load, if_pos (by simp; omega)]
  have window : ((filled (front ++ (cells ++ back)) rest).drop front.length).take cells.length
      = cells.map some := by
    simp [filled]
  rw [window, List.allSome, List.mapM_map]
  exact (List.mapM_pure (f := id)).trans (by simp)

end Buffer

end PMKVLab.Library
