import Mathlib.Data.List.Basic

/-! Machines that answer each input with an output, and equality of their runs by a
step-by-step simulation.
-/

namespace PMKVLab.Library

variable {Input Output State Abstract : Type}

/-- Feed the inputs one after another, collecting the answers. -/
def run (step : Input → State → Output × State) : List Input → State → List Output × State
  | [], state => ([], state)
  | input :: rest, state =>
      let (output, next) := step input state
      let (outputs, final) := run step rest next
      (output :: outputs, final)

theorem run_cons (step : Input → State → Output × State) (input : Input)
    (rest : List Input) (state : State)
    : run step (input :: rest) state
      = ((step input state).1 :: (run step rest (step input state).2).1,
          (run step rest (step input state).2).2) := rfl

/-- Running two input lists in sequence is running their concatenation, by induction on
the first list.
-/
theorem run_append (step : Input → State → Output × State) (first second : List Input)
    (state : State)
    : run step (first ++ second) state
      = ((run step first state).1 ++ (run step second (run step first state).2).1,
          (run step second (run step first state).2).2) := by
  induction first generalizing state with
  | nil => rfl
  | cons input rest ih => simp only [List.cons_append, run_cons, ih]

/-- If related states answer every admitted input alike and stay related, then whole runs
answer alike and end related. Witness: induction on the inputs.
-/
theorem run_simulates {step : Input → State → Output × State}
    {abstractStep : Input → Abstract → Output × Abstract} (admitted : Input → Prop)
    (related : State → Abstract → Prop)
    (simulates
      : ∀ input state abstract, admitted input → related state abstract
          → (step input state).1 = (abstractStep input abstract).1
            ∧ related (step input state).2 (abstractStep input abstract).2)
    (inputs : List Input) (all : ∀ input ∈ inputs, admitted input) {state : State}
    {abstract : Abstract} (start : related state abstract)
    : (run step inputs state).1 = (run abstractStep inputs abstract).1
      ∧ related (run step inputs state).2 (run abstractStep inputs abstract).2 := by
  induction inputs generalizing state abstract with
  | nil => exact ⟨rfl, start⟩
  | cons input rest ih =>
      obtain ⟨sameHead, next⟩ := simulates input state abstract (all input (by simp)) start
      obtain ⟨sameRest, final⟩ := ih (fun later member => all later (by simp [member])) next
      simp only [run_cons]
      exact ⟨by rw [sameHead, sameRest], final⟩

end PMKVLab.Library
