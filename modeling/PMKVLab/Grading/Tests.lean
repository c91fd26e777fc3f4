import Mathlib.Data.List.Nodup

/-! The tests that are graded: `spec` of `parse_result.py`, the lists of `run_all.sh` and the
first output files of `lab.py` name the same ones in the same order.
-/

namespace PMKVLab.Grading

inductive GradedTest
  | basicTest
  | simpleTest
  | binaryKeyTest
  | binaryValueTest
  | emptyKeyTest
  | emptyValueTest
  | getClearExternalValueTest
  | getHeadlessTest
  | getMultipleTest
  | getMultiple2Test
  | getNonexistentTest
  | putTest
  | putKeysOfDifferentSizesTest
  | putValuesOfDifferentSizesTest
  | removeAllTest
  | removeAndInsertTest
  | removeExistingTest
  | removeHeadlessTest
  | removeNonexistentTest
  | simpleMultithreadedTest
  | largeAscendingTest
  | largeAscendingAfterRecoveryTest
  | largeDescendingTest
  | largeDescendingAfterRecoveryTest
  | fillSeqRecoveryTest
  | overwriteSeqRecoveryTest
  | deleteSeqRecoveryTest
deriving DecidableEq, Repr

namespace GradedTest

/-- The suite and the name of a test, as a report has them. -/
def suiteAndName : GradedTest → String × String
  | .basicTest => ("PMKVTest", "BasicTest")
  | .simpleTest => ("PMKVTest", "SimpleTest")
  | .binaryKeyTest => ("PMKVTest", "BinaryKeyTest")
  | .binaryValueTest => ("PMKVTest", "BinaryValueTest")
  | .emptyKeyTest => ("PMKVTest", "EmptyKeyTest")
  | .emptyValueTest => ("PMKVTest", "EmptyValueTest")
  | .getClearExternalValueTest => ("PMKVTest", "GetClearExternalValueTest")
  | .getHeadlessTest => ("PMKVTest", "GetHeadlessTest")
  | .getMultipleTest => ("PMKVTest", "GetMultipleTest")
  | .getMultiple2Test => ("PMKVTest", "GetMultiple2Test")
  | .getNonexistentTest => ("PMKVTest", "GetNonexistentTest")
  | .putTest => ("PMKVTest", "PutTest")
  | .putKeysOfDifferentSizesTest => ("PMKVTest", "PutKeysOfDifferentSizesTest")
  | .putValuesOfDifferentSizesTest => ("PMKVTest", "PutValuesOfDifferentSizesTest")
  | .removeAllTest => ("PMKVTest", "RemoveAllTest")
  | .removeAndInsertTest => ("PMKVTest", "RemoveAndInsertTest")
  | .removeExistingTest => ("PMKVTest", "RemoveExistingTest")
  | .removeHeadlessTest => ("PMKVTest", "RemoveHeadlessTest")
  | .removeNonexistentTest => ("PMKVTest", "RemoveNonexistentTest")
  | .simpleMultithreadedTest => ("PMKVTest", "SimpleMultithreadedTest")
  | .largeAscendingTest => ("PMKVLargeTest", "LargeAscendingTest")
  | .largeAscendingAfterRecoveryTest => ("PMKVLargeTest", "LargeAscendingAfterRecoveryTest")
  | .largeDescendingTest => ("PMKVLargeTest", "LargeDescendingTest")
  | .largeDescendingAfterRecoveryTest => ("PMKVLargeTest", "LargeDescendingAfterRecoveryTest")
  | .fillSeqRecoveryTest => ("PMKVRecoveryTest", "FillSeqRecoveryTest")
  | .overwriteSeqRecoveryTest => ("PMKVRecoveryTest", "OverwriteSeqRecoveryTest")
  | .deleteSeqRecoveryTest => ("PMKVRecoveryTest", "DeleteSeqRecoveryTest")

def text (test : GradedTest) : String :=
  test.suiteAndName.1 ++ "." ++ test.suiteAndName.2

/-- The tests in the order of the source's lists. -/
def all : List GradedTest :=
  [.basicTest, .simpleTest, .binaryKeyTest, .binaryValueTest, .emptyKeyTest, .emptyValueTest,
    .getClearExternalValueTest, .getHeadlessTest, .getMultipleTest, .getMultiple2Test,
    .getNonexistentTest, .putTest, .putKeysOfDifferentSizesTest,
    .putValuesOfDifferentSizesTest, .removeAllTest, .removeAndInsertTest,
    .removeExistingTest, .removeHeadlessTest, .removeNonexistentTest,
    .simpleMultithreadedTest, .largeAscendingTest, .largeAscendingAfterRecoveryTest,
    .largeDescendingTest, .largeDescendingAfterRecoveryTest, .fillSeqRecoveryTest,
    .overwriteSeqRecoveryTest, .deleteSeqRecoveryTest]

theorem mem_all (test : GradedTest) : test ∈ all := by
  cases test <;> decide

theorem text_injective : Function.Injective text := by
  intro left right same
  have distinct : (all.map text).Nodup := by decide +kernel
  exact List.inj_on_of_nodup_map distinct (mem_all left) (mem_all right) same

end GradedTest

end PMKVLab.Grading
