import Mathlib.Data.List.Basic
import Mathlib.Logic.Function.Basic

/-! Sequences of writes to named places, of which the last to each place remains. -/

namespace PMKVLab.Library

variable {Place Value : Type} [DecidableEq Place]

/-- What a sequence of writes leaves, in the order of the list. -/
def overwritten (writes : List (Place × Value)) (contents : Place → Option Value)
    : Place → Option Value :=
  writes.foldl (fun contents write => Function.update contents write.1 (some write.2)) contents

variable (contents : Place → Option Value)

@[simp]
theorem overwritten_nil : overwritten [] contents = contents :=
  rfl

theorem overwritten_cons (write : Place × Value) (writes : List (Place × Value))
    : overwritten (write :: writes) contents
      = overwritten writes (Function.update contents write.1 (some write.2)) :=
  rfl

theorem overwritten_append (earlier later : List (Place × Value))
    : overwritten (earlier ++ later) contents = overwritten later (overwritten earlier contents) :=
  List.foldl_append

/-- A place that no write names keeps its contents. -/
theorem overwritten_of_notMem {writes : List (Place × Value)} {place : Place}
    (other : place ∉ writes.map Prod.fst)
    : overwritten writes contents place = contents place := by
  induction writes generalizing contents with
  | nil => rfl
  | cons write rest ih =>
      rw [List.map_cons, List.mem_cons, not_or] at other
      rw [overwritten_cons, ih _ other.2, Function.update_of_ne other.1]

/-- A place that some write names holds the value of one of them. -/
theorem exists_overwritten {writes : List (Place × Value)} {place : Place}
    (named : place ∈ writes.map Prod.fst)
    : ∃ value, (place, value) ∈ writes ∧ overwritten writes contents place = some value := by
  induction writes generalizing contents with
  | nil => cases named
  | cons write rest ih =>
      rw [overwritten_cons]
      by_cases later : place ∈ rest.map Prod.fst
      · obtain ⟨value, member, held⟩ := ih _ later
        exact ⟨value, List.mem_cons_of_mem _ member, held⟩
      · have same : place = write.1 :=
          (List.mem_cons.mp named).resolve_right later
        refine ⟨write.2, same ▸ List.mem_cons_self, ?_⟩
        rw [overwritten_of_notMem _ later, same, Function.update_self]

end PMKVLab.Library
