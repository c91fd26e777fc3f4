import Mathlib.Data.List.FinRange
import Mathlib.Data.List.Perm.Basic

/-! Threads that apply commuting operations to one shared state: what they leave does not
depend on how their operations are interleaved.
-/

namespace PMKVLab.Library

variable {Key State Cost : Type} {n : Nat}

/-- Operations commute, and what one of them returns is not affected by the others. -/
structure Commuting (effect : Key → State → State) (cost : Key → State → Cost) : Prop where
  commutes : ∀ first second state,
    effect first (effect second state) = effect second (effect first state)
  stable : ∀ key other state, cost key (effect other state) = cost key state

/-- Apply the operations of the listed keys, in order. -/
def perform (effect : Key → State → State) (keys : List Key) (state : State) : State :=
  keys.foldl (fun current key => effect key current) state

/-- All operations of all threads, thread by thread. -/
def together (performed : Fin n → List Key) : List Key :=
  (List.finRange n).flatMap performed

theorem mem_together {performed : Fin n → List Key} {key : Key}
    : key ∈ together performed ↔ ∃ i, key ∈ performed i := by
  simp [together]

theorem perform_append (effect : Key → State → State) (first second : List Key)
    (state : State)
    : perform effect (first ++ second) state
      = perform effect second (perform effect first state) :=
  List.foldl_append

/-- Operations without an effect leave the state alone. -/
theorem perform_idle (keys : List Key) (state : State)
    : perform (fun _ current => current) keys state = state := by
  induction keys with
  | nil => rfl
  | cons _ _ ih => exact ih

/-- Commuting operations may be applied in any order. -/
theorem Commuting.perform_perm {effect : Key → State → State} {cost : Key → State → Cost}
    (commuting : Commuting effect cost) {first second : List Key}
    (same : first.Perm second) (state : State)
    : perform effect first state = perform effect second state := by
  have right : RightCommutative (fun current key => effect key current) :=
    ⟨fun state first second => commuting.commutes second first state⟩
  exact same.foldl_eq state

/-- No operation changes what another returns, by induction on the operations. -/
theorem Commuting.cost_perform {effect : Key → State → State} {cost : Key → State → Cost}
    (commuting : Commuting effect cost) (key : Key) (keys : List Key) (state : State)
    : cost key (perform effect keys state) = cost key state := by
  induction keys generalizing state with
  | nil => rfl
  | cons head rest ih =>
      have step : perform effect (head :: rest) state = perform effect rest (effect head state) :=
        rfl
      rw [step, ih, commuting.stable]

/-- One more operation of one thread is one more operation of all of them. Witness: the
threads before and after it keep their operations.
-/
theorem together_update (performed : Fin n → List Key) (i : Fin n) (key : Key)
    : (together (Function.update performed i (performed i ++ [key]))).Perm
        (together performed ++ [key]) := by
  obtain ⟨before, after, split⟩ := List.append_of_mem (List.mem_finRange i)
  have distinct := List.nodup_finRange n
  rw [split] at distinct
  have keep (threads : List (Fin n)) (absent : i ∉ threads)
      : threads.flatMap (Function.update performed i (performed i ++ [key]))
        = threads.flatMap performed := by
    apply List.flatMap_congr
    intro j member
    rw [Function.update_of_ne]
    intro same
    exact absent (same ▸ member)
  have notBefore : i ∉ before := fun member =>
    (List.nodup_append.mp distinct).2.2 i member i List.mem_cons_self rfl
  have notAfter : i ∉ after :=
    (List.nodup_cons.mp (List.nodup_append.mp distinct).2.1).1
  rw [together, together, split, List.flatMap_append, List.flatMap_append, List.flatMap_cons,
    List.flatMap_cons, keep before notBefore, keep after notAfter, Function.update_self]
  simp only [List.append_assoc]
  exact (List.perm_append_comm.append_left _).append_left _

/-- One more operation of one thread is that operation applied to what all have done. -/
theorem Commuting.perform_update {effect : Key → State → State} {cost : Key → State → Cost}
    (commuting : Commuting effect cost) (performed : Fin n → List Key) (i : Fin n) (key : Key)
    (state : State)
    : perform effect (together (Function.update performed i (performed i ++ [key]))) state
      = effect key (perform effect (together performed) state) := by
  rw [commuting.perform_perm (together_update performed i key), perform_append]
  rfl

end PMKVLab.Library
