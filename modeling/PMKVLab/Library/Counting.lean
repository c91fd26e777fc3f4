import Mathlib.Algebra.BigOperators.Fin
import Mathlib.Algebra.Order.BigOperators.Group.Finset
import Mathlib.Data.Finset.Card
import Mathlib.Data.Fintype.Card

/-! Finite families under changes of single members: how many have reached a level, and
their total weight.
-/

namespace PMKVLab.Library

variable {n : Nat}

/-- How many members of the family have reached the level. -/
def reached (level : Nat) (family : Fin n → Nat) : Nat :=
  (Finset.univ.filter (fun i => level ≤ family i)).card

/-- The whole family bounds every count. -/
theorem reached_le (level : Nat) (family : Fin n → Nat) : reached level family ≤ n := by
  have bound := Finset.card_filter_le (Finset.univ : Finset (Fin n))
    (fun i => level ≤ family i)
  rwa [Finset.card_univ, Fintype.card_fin] at bound

/-- The count is the size of the family exactly when every member has reached the level. -/
theorem reached_eq_iff {level : Nat} {family : Fin n → Nat}
    : reached level family = n ↔ ∀ i, level ≤ family i := by
  constructor
  · intro full i
    have whole : Finset.univ.filter (fun i => level ≤ family i) = Finset.univ := by
      apply Finset.eq_univ_of_card
      rw [Fintype.card_fin]
      exact full
    have member : i ∈ Finset.univ.filter (fun i => level ≤ family i) := by
      rw [whole]
      exact Finset.mem_univ i
    exact (Finset.mem_filter.mp member).2
  · intro all
    simp [reached, all]

/-- A smaller count leaves a member below the level. -/
theorem exists_below_of_reached_lt {level : Nat} {family : Fin n → Nat}
    (less : reached level family < n)
    : ∃ i, family i < level := by
  by_contra none
  push Not at none
  exact absurd (reached_eq_iff.mpr none) (Nat.ne_of_lt less)

/-- Higher levels are reached by fewer members. -/
theorem reached_anti {low high : Nat} (below : low ≤ high) (family : Fin n → Nat)
    : reached high family ≤ reached low family := by
  apply Finset.card_le_card
  intro i member
  simp only [Finset.mem_filter, Finset.mem_univ, true_and] at member ⊢
  exact Nat.le_trans below member

/-- Raising one member counts it once more exactly when it passes the level. -/
theorem reached_raise {family : Fin n → Nat} {i : Fin n} {target : Nat} (level : Nat)
    (raised : family i ≤ target)
    : reached level (Function.update family i target)
      = reached level family + if family i < level ∧ level ≤ target then 1 else 0 := by
  by_cases passes : family i < level ∧ level ≤ target
  · have grown : Finset.univ.filter (fun j => level ≤ Function.update family i target j)
        = insert i (Finset.univ.filter (fun j => level ≤ family j)) := by
      ext j
      by_cases same : j = i
      · subst same
        simp [passes.2]
      · simp [same]
    rw [if_pos passes, reached, grown, Finset.card_insert_of_notMem, reached]
    simp [passes.1]
  · rw [if_neg passes, Nat.add_zero, reached, reached]
    congr 1
    ext j
    by_cases same : j = i
    · subst same
      simp only [Finset.mem_filter, Finset.mem_univ, true_and, Function.update_self]
      omega
    · simp [same]

/-- All members but one have reached the level exactly when the count misses at most that
one. Witness: raising it completes the count.
-/
theorem others_reached_iff {level : Nat} {family : Fin n → Nat} {i : Fin n}
    (below : family i < level)
    : (∀ j, j ≠ i → level ≤ family j) ↔ n ≤ reached level family + 1 := by
  have raised := reached_raise level (Nat.le_of_lt below)
  rw [if_pos ⟨below, Nat.le_refl level⟩] at raised
  have bound := reached_le level (Function.update family i level)
  constructor
  · intro others
    have full : reached level (Function.update family i level) = n := by
      rw [reached_eq_iff]
      intro j
      by_cases same : j = i
      · subst same
        simp
      · simpa [same] using others j same
    omega
  · intro many j other
    have full : reached level (Function.update family i level) = n := by omega
    have reachedBy := reached_eq_iff.mp full j
    simpa [other] using reachedBy

/-- Replacing one member exchanges its weight in the total. -/
theorem sum_replace {Item : Type} (weight : Fin n → Item → Nat) (family : Fin n → Item)
    (i : Fin n) (item : Item)
    : (∑ j, weight j (Function.update family i item j)) + weight i (family i)
      = (∑ j, weight j (family j)) + weight i item := by
  have others : ∑ j ∈ Finset.univ.erase i, weight j (Function.update family i item j)
      = ∑ j ∈ Finset.univ.erase i, weight j (family j) := by
    apply Finset.sum_congr rfl
    intro j member
    rw [Function.update_of_ne (Finset.ne_of_mem_erase member)]
  rw [← Finset.add_sum_erase _ _ (Finset.mem_univ i),
    ← Finset.add_sum_erase Finset.univ (fun j => weight j (family j)) (Finset.mem_univ i),
    others, Function.update_self]
  omega

/-- Changing every member by at most one changes the total by at most their number. -/
theorem sum_le_add {Item : Type} (weight : Fin n → Item → Nat) {family other : Fin n → Item}
    (close : ∀ i, weight i (other i) ≤ weight i (family i) + 1)
    : ∑ i, weight i (other i) ≤ (∑ i, weight i (family i)) + n := by
  calc ∑ i, weight i (other i)
      ≤ ∑ i, (weight i (family i) + 1) := Finset.sum_le_sum (fun i _ => close i)
    _ = (∑ i, weight i (family i)) + n := by simp [Finset.sum_add_distrib]

/-- Counting is adding up ones. -/
theorem sum_map_ite {Item : Type} (property : Item → Prop) [DecidablePred property]
    (items : List Item)
    : (items.map (fun item => if property item then 1 else 0)).sum
      = items.countP (fun item => decide (property item)) := by
  induction items with
  | nil => rfl
  | cons item rest ih => simp [List.countP_cons, ih, Nat.add_comm]

/-- Taking one member out of a list takes its weight out of the total. -/
theorem sum_map_eraseIdx {Item Weight : Type} [AddCommMonoid Weight] (weight : Item → Weight)
    {items : List Item} {k : Nat} {item : Item} (found : items[k]? = some item)
    : (items.map weight).sum = weight item + ((items.eraseIdx k).map weight).sum := by
  obtain ⟨bound, rfl⟩ := List.getElem?_eq_some_iff.mp found
  have same := ((List.getElem_cons_eraseIdx_perm bound).map weight).sum_eq
  simpa using same.symm

end PMKVLab.Library
