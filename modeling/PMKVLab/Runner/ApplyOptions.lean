import PMKVLab.Library.Doubles
import PMKVLab.Runner.Records

/-! `Submission.apply_options`: it asks `cpupower` for the frequencies of the processor, sets
the one the environment names, and asks again.
-/

namespace PMKVLab.Runner

open PMKVLab.Library
open Program (lift raise gets modify)

-----------------------------------------------------------------------------------------
-- Texts
-----------------------------------------------------------------------------------------

/-- `text.split(separator)`; the characters of a separator that was just found are skipped. -/
def splitText (separator : List Char) : Nat → List Char → List (List Char)
  | _, [] => [[]]
  | skip + 1, _ :: rest => splitText separator skip rest
  | 0, character :: rest =>
      if separator.isPrefixOf (character :: rest) then
        [] :: splitText separator (separator.length - 1) rest
      else
        match splitText separator 0 rest with
        | [] => [[character]]
        | part :: others => (character :: part) :: others

def split (separator text : String) : List String :=
  (splitText separator.toList 0 text.toList).map String.ofList

/-- `re.search("(\d+):(\d+)", text)`: the two groups of the leftmost match. A run of digits
that no colon follows has no match that starts inside it either.
-/
def searchRatio (decimal : Char → Bool) : List Char → Option (List Char × List Char)
  | [] => none
  | character :: rest =>
      match (character :: rest).takeWhile decimal, (character :: rest).dropWhile decimal with
      | first :: digits, ':' :: later =>
          match later.takeWhile decimal with
          | [] => searchRatio decimal rest
          | second => some (first :: digits, second)
      | _, _ => searchRatio decimal rest

-- The count after the colon is a group too, and text around the match is skipped.
example : (searchRatio Char.isDigit "cpu0 2200000:15 ".toList).map
    (fun groups => (String.ofList groups.1, String.ofList groups.2)) = some ("2200000", "15") := by
  decide +kernel

namespace Submission

/-- The outside commands of `apply_options`: the exit code of `subprocess.call`, and the
decoded output of `subprocess.check_output`.
-/
structure Commands where
  call : List String → Except Raised Int
  checkOutput : List String → Except Raised String

/-- The class of the exception for a command with a nonzero exit code. -/
def calledProcessError : ExceptionClass := .named "CalledProcessError"

/-- `except subprocess.CalledProcessError as e: raise Exception(...)`. -/
def rethrow {Value : Type} (message : String) (outcome : Except Raised Value)
    : Except Raised Value :=
  match outcome with
  | .error e =>
      if e.kind = calledProcessError then .error ⟨.exception, message ++ e.message⟩
      else .error e
  | ok => ok

def line (index : Nat) (o : List String) : Except Raised String :=
  match o[index]? with
  | some text => .ok text
  | none => .error ⟨.indexError, "list index out of range"⟩

/-- `int(number / 1000)`: the division is one of floats. -/
def thousandth (number : Int) : Except Raised Int :=
  match truncatedQuotient number.natAbs 1000 with
  | some truncated => .ok (number.sign * truncated)
  | none => .error ⟨.named "OverflowError", "integer division result too large for a float"⟩

/-- One round of the loop over the listed frequencies; only multiples of ten are kept. -/
def parseFrequency (interpreter : Interpreter) (frequencies : List Int) (f : String)
    : Except Raised (List Int) := do
  match searchRatio interpreter.decimal f.toList with
  | none => .error ⟨.exception, "Failed to parse output from cpupower: " ++ f⟩
  | some m =>
      let f ← thousandth (← interpreter.toInt (.str (String.ofList m.1)))
      return if f % 10 = 0 then frequencies ++ [f] else frequencies

/-- The frequencies that `cpupower frequency-info -s` lists. -/
def availableFrequencies (interpreter : Interpreter) (commands : Commands)
    : Except Raised (List Int) := do
  let printed ← rethrow "Calling 'cpupower' to extract frequency list failed: "
    (commands.checkOutput ["cpupower", "frequency-info", "-s"])
  let o := split "\n" printed
  if !(← (Py.str (← line 0 o)).contains (.str "analyzing CPU")) then
    .error ⟨.exception, "Error running cpu power to extract available frequencies"⟩
  (split ", " (← line 1 o)).foldlM (parseFrequency interpreter) []

/-- `max(frequencies)`. -/
def maxFrequency : List Int → Except Raised Int
  | [] => .error ⟨.valueError, "max() arg is an empty sequence"⟩
  | first :: rest => .ok (rest.foldl max first)

/-- The target frequency as the text that is put into commands and messages. -/
def targetMHz (interpreter : Interpreter) (env : Py) (frequencies : List Int)
    : Except Raised String := do
  if ← env.contains (.str "MHz") then
    let wanted ← env.getItem (.str "MHz")
    if (← interpreter.toInt wanted) ∉ frequencies then
      .error ⟨.exception, "Unsupported frequency in 'MHz': " ++ interpreter.str wanted⟩
    return interpreter.str wanted
  else
    return toString (← maxFrequency frequencies)

/-- Set the frequency and look whether the target is part of what is reported then. -/
def setFrequency (commands : Commands) (target : String) : Except Raised Unit := do
  let failed := "Calling 'cpupower' to set frequency to " ++ target ++ "MHz failed: "
  let _ ← rethrow failed
    (commands.checkOutput ["cpupower", "frequency-set", "--freq", target ++ "MHz"])
  let printed ← rethrow failed
    (commands.checkOutput ["/usr/bin/cpupower", "frequency-info", "-w"])
  let reported ← line 1 (split "\n" printed)
  if !(← (Py.str reported).contains (.str (target ++ "000"))) then
    .error ⟨.exception, failed ++ reported ++ "."⟩

/-- `apply_options`. -/
def applyOptions (interpreter : Interpreter) (commands : Commands)
    : Program Raised Submission Unit := do
  if (← lift (commands.call ["which", "cpupower"])) ≠ 0 then
    return
  let frequencies ← lift (availableFrequencies interpreter commands)
  match ← gets Submission.env with
  | .dict entries =>
      let listed := " ".intercalate (frequencies.map toString)
      modify fun sub =>
        { sub with
          env := .dict (setItem "ARCHLAB_AVAILABLE_CPU_FREQUENCIES" (.str listed) entries) }
  | other =>
      raise ⟨.typeError,
        "'" ++ other.typeName ++ "' object does not support item assignment"⟩
  let target ← lift (targetMHz interpreter (← gets Submission.env) frequencies)
  lift (setFrequency commands target)

end Submission

end PMKVLab.Runner
