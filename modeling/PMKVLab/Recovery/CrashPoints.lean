import PMKVLab.Recovery.SanityCheck

/-! Crashes inside the workloads of `recovery_test.cc`. A crash falls between two
operations or inside one, which is then applied or not; after reopening, the check passes
at every such point.
-/

namespace PMKVLab.Recovery

open PMKVLab.Library
open PMKVLab.Store

/-- `INT_MAX`. -/
def intMax : Nat := 2 ^ 31 - 1

-----------------------------------------------------------------------------------------
-- The workload loops
-----------------------------------------------------------------------------------------

/-- A workload between two iterations: still counting, past its last iteration, returned
by a failed `ASSERT_TRUE`, or past an overflow of its `int` counter.
-/
inductive LoopState (State : Type)
  | running (i : Nat) (state : State)
  | finished (state : State)
  | asserted (state : State)
  | overflowed

section Loops

variable {State : Type} (numOp : Nat) (call : Nat → State → Except String Status × State)

/-- One iteration of `for (int i = 1; i <= NUM_OP; i++) ASSERT_TRUE(call == OK)`. -/
def loopStep : LoopState State → LoopState State
  | .running i state =>
      if i ≤ numOp then
        match call i state with
        | (.ok .ok, next) => if i < intMax then .running (i + 1) next else .overflowed
        | (_, next) => .asserted next
      else .finished state
  | final => final

def loopAfter (iterations : Nat) (start : State) : LoopState State :=
  (loopStep numOp call)^[iterations] (.running 1 start)

/-- A crash after `n` completed operations leaves their state, or that of the operation in
flight as well.
-/
def CrashPoint (start : State) (n : Nat) (crashed : State) : Prop :=
  ∃ i state, loopAfter numOp call n start = .running i state
    ∧ (crashed = state ∨ (i ≤ numOp ∧ crashed = (call i state).2))

/-- Each call succeeds and takes the invariant from `n` to `n + 1` completed operations. -/
structure LoopInvariant (invariant : Nat → State → Prop) (start : State) : Prop where
  initial : invariant 0 start
  preserved
    : ∀ n state, n < numOp → invariant n state
        → (call (n + 1) state).1 = .ok .ok ∧ invariant (n + 1) (call (n + 1) state).2

variable {numOp} {call}

/-- Every state the loop runs through satisfies the invariant, by induction on the
iterations.
-/
theorem LoopInvariant.holds {invariant : Nat → State → Prop} {start : State}
    (rule : LoopInvariant numOp call invariant start)
    {n i : Nat} {state : State} (runs : loopAfter numOp call n start = .running i state)
    : i = n + 1 ∧ n ≤ numOp ∧ invariant n state := by
  induction n generalizing i state with
  | zero =>
      cases runs
      exact ⟨rfl, Nat.zero_le _, rule.initial⟩
  | succ n ih =>
      rw [loopAfter, Function.iterate_succ_apply'] at runs
      change loopStep numOp call (loopAfter numOp call n start) = _ at runs
      cases earlier : loopAfter numOp call n start with
      | running j before =>
          obtain ⟨rfl, _, held⟩ := ih earlier
          rw [earlier, loopStep] at runs
          split at runs
          · next more =>
              obtain ⟨ok, next⟩ := rule.preserved n before (by omega) held
              rw [← Prod.mk.eta (p := call (n + 1) before), ok] at runs
              simp only at runs
              split at runs
              · cases runs
                exact ⟨rfl, more, next⟩
              · cases runs
          · cases runs
      | finished | asserted | overflowed =>
          rw [earlier] at runs
          cases runs

/-- Under a loop invariant every iteration up to the last one is reached. -/
theorem LoopInvariant.reaches {invariant : Nat → State → Prop} {start : State}
    (rule : LoopInvariant numOp call invariant start)
    {n : Nat} (last : n ≤ numOp) (counted : n < intMax)
    : ∃ state, loopAfter numOp call n start = .running (n + 1) state := by
  induction n with
  | zero => exact ⟨start, rfl⟩
  | succ n ih =>
      obtain ⟨state, runs⟩ := ih (by omega) (by omega)
      obtain ⟨_, _, held⟩ := rule.holds runs
      obtain ⟨ok, _⟩ := rule.preserved n state (by omega) held
      refine ⟨(call (n + 1) state).2, ?_⟩
      rw [loopAfter, Function.iterate_succ_apply']
      change loopStep numOp call (loopAfter numOp call n start) = _
      rw [runs, loopStep, if_pos last, ← Prod.mk.eta (p := call (n + 1) state), ok]
      simp only [counted, if_true]

/-- A finished loop has made all its calls. -/
theorem LoopInvariant.finished {invariant : Nat → State → Prop} {start : State}
    (rule : LoopInvariant numOp call invariant start)
    {n : Nat} {final : State} (done : loopAfter numOp call n start = .finished final)
    : invariant numOp final := by
  induction n with
  | zero => cases done
  | succ n ih =>
      rw [loopAfter, Function.iterate_succ_apply'] at done
      change loopStep numOp call (loopAfter numOp call n start) = _ at done
      cases earlier : loopAfter numOp call n start with
      | running j before =>
          obtain ⟨rfl, reached, held⟩ := rule.holds earlier
          rw [earlier, loopStep] at done
          split at done
          · obtain ⟨ok, _⟩ := rule.preserved n before (by omega) held
            rw [← Prod.mk.eta (p := call (n + 1) before), ok] at done
            simp only at done
            split at done
            · cases done
            · cases done
          · have last : n = numOp := by omega
            cases done
            exact last ▸ held
      | finished state =>
          rw [earlier] at done
          cases done
          exact ih earlier
      | asserted | overflowed =>
          rw [earlier] at done
          cases done

/-- A crash state satisfies the invariant for the completed operations or for one more. -/
theorem LoopInvariant.crashed {invariant : Nat → State → Prop} {start : State}
    (rule : LoopInvariant numOp call invariant start)
    {n : Nat} {crashed : State} (point : CrashPoint numOp call start n crashed)
    : ∃ k ≤ numOp, invariant k crashed := by
  obtain ⟨i, state, runs, settled | ⟨more, applied⟩⟩ := point
  · obtain ⟨_, reached, held⟩ := rule.holds runs
    exact ⟨n, reached, settled ▸ held⟩
  · obtain ⟨rfl, _, held⟩ := rule.holds runs
    exact ⟨n + 1, more, applied ▸ (rule.preserved n state (by omega) held).2⟩

end Loops

end PMKVLab.Recovery
