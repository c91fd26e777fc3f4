import Mathlib.Logic.Function.Basic
import PMKVLab.Library.Transitions

/-! Programs of statements that are left at the first one that fails, alone and as threads
over one state. Programs are verified by composition, threads by an assertion about what
all of them have done so far.
-/

namespace PMKVLab.Library

variable {Statement State : Type} {n : Nat}

/-- The result of a statement that has passed, and whose state has the property. -/
def PassesWith (property : State → Prop) (result : Bool × State) : Prop :=
  result.1 = true ∧ property result.2

-----------------------------------------------------------------------------------------
-- One program
-----------------------------------------------------------------------------------------

/-- Perform the statements in order; the first failure ends the program. -/
def runStatements (perform : Statement → State → Bool × State)
    : List Statement → State → Bool × State
  | [], state => (true, state)
  | statement :: rest, state =>
      let (passed, next) := perform statement state
      if passed then runStatements perform rest next else (false, next)

section Programs

variable {perform : Statement → State → Bool × State}

/-- One statement, then the rest. -/
theorem PassesWith.cons {middle last : State → Prop} {statement : Statement}
    {rest : List Statement} {state : State}
    (first : PassesWith middle (perform statement state))
    (continues : ∀ next, middle next → PassesWith last (runStatements perform rest next))
    : PassesWith last (runStatements perform (statement :: rest) state) := by
  have whole : runStatements perform (statement :: rest) state
      = runStatements perform rest (perform statement state).2 := by
    simp [runStatements, first.1]
  rw [whole]
  exact continues _ first.2

/-- One program, then another, by induction on the first one. -/
theorem PassesWith.append {middle last : State → Prop} {first second : List Statement}
    {state : State} (begins : PassesWith middle (runStatements perform first state))
    (continues : ∀ next, middle next → PassesWith last (runStatements perform second next))
    : PassesWith last (runStatements perform (first ++ second) state) := by
  induction first generalizing state with
  | nil => exact continues state begins.2
  | cons statement rest ih =>
      cases passed : (perform statement state).1 with
      | false => simp [PassesWith, runStatements, passed] at begins
      | true =>
          have whole (more : List Statement)
              : runStatements perform (statement :: more) state
                = runStatements perform more (perform statement state).2 := by
            simp [runStatements, passed]
          rw [whole] at begins
          rw [List.cons_append, whole]
          exact ih begins

/-- If related states answer every admitted statement alike and stay related, then whole
programs pass alike and end related. By induction on the statements.
-/
theorem runStatements_simulates {Abstract : Type}
    {abstractPerform : Statement → Abstract → Bool × Abstract} (admitted : Statement → Prop)
    (related : State → Abstract → Prop)
    (simulates
      : ∀ statement state abstract, admitted statement → related state abstract
          → (perform statement state).1 = (abstractPerform statement abstract).1
            ∧ related (perform statement state).2 (abstractPerform statement abstract).2)
    {program : List Statement} (all : ∀ statement ∈ program, admitted statement)
    {state : State} {abstract : Abstract} (start : related state abstract)
    : (runStatements perform program state).1
        = (runStatements abstractPerform program abstract).1
      ∧ related (runStatements perform program state).2
          (runStatements abstractPerform program abstract).2 := by
  induction program generalizing state abstract with
  | nil => exact ⟨rfl, start⟩
  | cons statement rest ih =>
      obtain ⟨same, next⟩ :=
        simulates statement state abstract (all statement List.mem_cons_self) start
      simp only [runStatements, same]
      split
      · exact ih (fun other member => all other (List.mem_cons_of_mem _ member)) next
      · exact ⟨rfl, next⟩

end Programs

-----------------------------------------------------------------------------------------
-- Threads
-----------------------------------------------------------------------------------------

/-- Threads over one state: what each of them has left to do, and whether one has failed. -/
structure Threads (Statement State : Type) (n : Nat) where
  state : State
  todo : Fin n → List Statement
  failed : Bool

namespace Threads

def start (program : Fin n → List Statement) (state : State) : Threads Statement State n :=
  ⟨state, program, false⟩

/-- Thread `i` performs its next statement. A failure ends this thread, not the others. -/
def step (perform : Statement → State → Bool × State) (i : Fin n)
    (threads : Threads Statement State n)
    : Option (Threads Statement State n) :=
  match threads.todo i with
  | [] => none
  | statement :: rest =>
      let (passed, next) := perform statement threads.state
      some ⟨next, Function.update threads.todo i (if passed then rest else []),
        threads.failed || !passed⟩

/-- What the threads have done so far, when none has failed. -/
structure Progress (program : Fin n → List Statement)
    (joint : (Fin n → List Statement) → State → Prop) (done : Fin n → List Statement)
    (threads : Threads Statement State n)
    : Prop where
  split : ∀ i, program i = done i ++ threads.todo i
  joint : joint done threads.state
  passed : threads.failed = false

section Rule

variable {perform : Statement → State → Bool × State} {program : Fin n → List Statement}
  {joint : (Fin n → List Statement) → State → Prop}

/-- Every statement of every thread passes after whatever all threads have done before it,
and keeps the joint assertion.
-/
def Verified (perform : Statement → State → Bool × State) (program : Fin n → List Statement)
    (joint : (Fin n → List Statement) → State → Prop)
    : Prop :=
  ∀ done state i statement left, program i = done i ++ statement :: left → joint done state
    → PassesWith (joint (Function.update done i (done i ++ [statement])))
        (perform statement state)

/-- A thread with something left to do can go on, and has then done one statement more. -/
theorem Progress.next (verified : Verified perform program joint)
    {done : Fin n → List Statement} {threads : Threads Statement State n}
    (progress : Progress program joint done threads) {i : Fin n} {statement : Statement}
    {left : List Statement} (begins : threads.todo i = statement :: left)
    : ∃ next, step perform i threads = some next
      ∧ Progress program joint (Function.update done i (done i ++ [statement])) next := by
  have whole := progress.split i
  rw [begins] at whole
  obtain ⟨passes, kept⟩ := verified done threads.state i statement left whole progress.joint
  refine ⟨⟨(perform statement threads.state).2, Function.update threads.todo i left,
    threads.failed⟩, ?_, ?_, kept, progress.passed⟩
  · simp [step, begins, passes]
  · intro j
    by_cases same : j = i
    · subst same
      simpa using whole
    · simpa [Function.update_of_ne same] using progress.split j

/-- A schedule that gives no thread more steps than it has statements is executed to its
end without a failure, and each thread has then done as many statements as it had steps.
By induction on the schedule.
-/
theorem Progress.execute (verified : Verified perform program joint) {schedule : List (Fin n)}
    {done : Fin n → List Statement} {threads : Threads Statement State n}
    (progress : Progress program joint done threads)
    (enough : ∀ i, schedule.count i ≤ (threads.todo i).length)
    : ∃ last final, Library.execute (step perform) schedule threads = some final
      ∧ Progress program joint last final
      ∧ ∀ i, (last i).length = (done i).length + schedule.count i := by
  induction schedule generalizing done threads with
  | nil => exact ⟨done, threads, rfl, progress, by simp⟩
  | cons i schedule ih =>
      cases begins : threads.todo i with
      | nil =>
          have none := enough i
          simp [begins] at none
      | cons statement left =>
          obtain ⟨next, taken, advanced⟩ := progress.next verified begins
          have remaining (j : Fin n) : schedule.count j ≤ (next.todo j).length := by
            have before := enough j
            have lengths := congrArg List.length (progress.split j)
            have lengthsNext := congrArg List.length (advanced.split j)
            by_cases same : j = i
            · subst same
              simp only [Function.update_self, List.length_append, List.length_cons,
                List.length_nil, List.count_cons_self] at before lengths lengthsNext
              omega
            · rw [Function.update_of_ne same] at lengthsNext
              rw [List.count_cons_of_ne (Ne.symm same)] at before
              simp only [List.length_append] at lengths lengthsNext
              omega
          obtain ⟨last, final, executed, progress, counts⟩ := ih advanced remaining
          refine ⟨last, final, ?_, progress, ?_⟩
          · rw [Library.execute, taken]
            exact executed
          · intro j
            rw [counts j]
            by_cases same : j = i
            · subst same
              simp only [Function.update_self, List.length_append, List.length_cons,
                List.length_nil, List.count_cons_self]
              omega
            · rw [Function.update_of_ne same, List.count_cons_of_ne (Ne.symm same)]

/-- A schedule with exactly the steps of every thread runs them all to their ends. -/
theorem execute_verified (verified : Verified perform program joint) {state : State}
    (initial : joint (fun _ => []) state) {schedule : List (Fin n)}
    (complete : ∀ i, schedule.count i = (program i).length)
    : ∃ final, Library.execute (step perform) schedule (start program state) = some final
      ∧ final.failed = false
      ∧ (∀ i, final.todo i = [])
      ∧ joint program final.state := by
  have begins : Progress program joint (fun _ => []) (start program state) :=
    ⟨fun _ => rfl, initial, rfl⟩
  obtain ⟨last, final, executed, progress, counts⟩ :=
    begins.execute verified (fun i => Nat.le_of_eq (complete i))
  have finished (i : Fin n) : final.todo i = [] := by
    have lengths := congrArg List.length (progress.split i)
    have count := counts i
    rw [complete i] at count
    rw [List.length_append] at lengths
    simp only [List.length_nil] at count
    exact List.length_eq_zero_iff.mp (by omega)
  have all : last = program := by
    funext i
    rw [progress.split i, finished i, List.append_nil]
  refine ⟨final, executed, progress.passed, finished, ?_⟩
  rw [← all]
  exact progress.joint

end Rule

end Threads

end PMKVLab.Library
