import PMKVLab.Grading.Tests
import PMKVLab.Library.Overwrites
import PMKVLab.Library.Programs
import PMKVLab.Library.Python

/-! `parse_result.py`: it turns the reports in a directory into one result file per test
case, and then writes an error for each graded test that has no report file. It is a script
for Python 2.
-/

namespace PMKVLab.Grading

open PMKVLab.Library
open Program (gets lift raise modify)

-----------------------------------------------------------------------------------------
-- Reports
-----------------------------------------------------------------------------------------

/-- An element of a parsed report. -/
inductive Element
  | mk (tag : String) (attrib : List (String × String)) (children : List Element)

namespace Element

def tag : Element → String
  | .mk tag _ _ => tag

def attrib : Element → List (String × String)
  | .mk _ attrib _ => attrib

def children : Element → List Element
  | .mk _ _ children => children

/-- `element.attrib[key]`. -/
def getAttrib (element : Element) (key : String) : Except Raised String :=
  match element.attrib.lookup key with
  | some value => .ok value
  | none => .error ⟨.keyError, key⟩

/-- `element.find(tag)`: the first child with the tag. -/
def find (element : Element) (tag : String) : Option Element :=
  element.children.find? (·.tag == tag)

end Element

/-- A file among the reports: the root that `ET.parse` finds, or `none` if it raises. -/
abbrev Report : Type := Option Element

/-- A test case with the suite it is in. -/
structure Case where
  testsuite : Element
  testcase : Element

/-- `'%s.%s' % (testsuite.attrib['name'], testcase.attrib['name'])`. -/
def Case.testName (case : Case) : Except Raised String := do
  return (← case.testsuite.getAttrib "name") ++ "." ++ (← case.testcase.getAttrib "name")

/-- The text for the result file: empty when the case has no failure. -/
def Case.message (case : Case) : Except Raised String :=
  match case.testcase.find "failure" with
  | none => .ok ""
  | some failure => failure.getAttrib "message"

/-- The test cases below a root, in the order of the two loops. -/
def casesOf (root : Element) : List Case :=
  root.children.flatMap fun testsuite => testsuite.children.map (Case.mk testsuite)

/-- One round of the loops: `ret[test_name] = ...`. -/
def addVerdict (ret : List (String × String)) (case : Case)
    : Except Raised (List (String × String)) := do
  let testName ← case.testName
  return setItem testName (← case.message) ret

/-- The dictionary `ret` of a report; a file that does not parse leaves it empty. -/
def Report.ret : Report → Except Raised (List (String × String))
  | none => .ok []
  | some root => (casesOf root).foldlM addVerdict []

-----------------------------------------------------------------------------------------
-- The script
-----------------------------------------------------------------------------------------

/-- The contents of the result files, by their names in `test_result_home`. -/
abbrev Results : Type := String → Option String

/-- A directory of reports. -/
structure Directory where
  files : List (String × Report)
  distinct : (files.map Prod.fst).Nodup

namespace Directory

def empty : Directory := ⟨[], List.nodup_nil⟩

def names (directory : Directory) : List String := directory.files.map Prod.fst

/-- What `ET.parse` finds under a name; it raises for a missing file too. -/
def report (directory : Directory) (name : String) : Report :=
  (directory.files.lookup name).join

/-- Create a file or replace it. -/
def put (directory : Directory) (name : String) (report : Report) : Directory :=
  ⟨setItem name report directory.files, setItem_nodup name report directory.distinct⟩

end Directory

/-- What the script reads and writes. -/
structure Disk where
  xml : Directory
  results : Results

/-- Where a path leads: to a result file, or to a file in the directory of the reports. -/
inductive Place
  | result (file : String)
  | report (file : String)
deriving DecidableEq, Repr

/-- What `open(test_result_home + name, 'w')` opens, if anything: a name may hold path
separators, and may lead back into the directory of the reports. The files of the graded tests
can be opened under their names. `parse` is `ET.parse` on a text.
-/
structure Platform where
  place : String → Option Place
  graded : ∀ test : GradedTest, place test.text = some (.result test.text)
  parse : String → Report

/-- The disk with a text at a place. -/
def Disk.write (platform : Platform) (disk : Disk) : Place → String → Disk
  | .result file, text => { disk with results := Function.update disk.results file (some text) }
  | .report file, text => { disk with xml := disk.xml.put file (platform.parse text) }

abbrev Script : Type → Type := Program Raised Disk

/-- The order in which a dictionary is iterated. -/
structure DictOrder where
  iteritems : List (String × String) → List (String × String)
  perm : ∀ entries, (iteritems entries).Perm entries

/-- The order in which the keys were inserted. -/
def DictOrder.inserted : DictOrder where
  iteritems := id
  perm entries := .refl entries

/-- Writing a text encodes it as ASCII. -/
def Encodes (text : String) : Prop := ∀ character ∈ text.toList, character.toNat < 128

instance (text : String) : Decidable (Encodes text) :=
  List.decidableBAll _ text.toList

variable (platform : Platform)

/-- `with open(test_result_home + test_name, 'w') as f: f.write(text)`. Opening empties the
file, also when the text cannot be written then.
-/
def writeResult (testName text : String) : Script Unit := do
  match platform.place testName with
  | none => raise ⟨.named "IOError", testName⟩
  | some place =>
      modify fun disk => disk.write platform place ""
      if Encodes text then
        modify fun disk => disk.write platform place text
      else
        raise ⟨.named "UnicodeEncodeError", text⟩

/-- `parse_test_result` on a file of the directory. -/
def parseTestResult (order : DictOrder) (xmlFile : String) : Script Unit := do
  let report ← gets fun disk => disk.xml.report xmlFile
  let ret ← lift report.ret
  (order.iteritems ret).forM fun entry => writeResult platform entry.1 entry.2

def reportFile (testName : String) : String := testName ++ ".xml"

def notProduced : String := "Error: output file couldn't be produced"

/-- `generate_failed_result`. -/
def generateFailedResult (spec : List String) : Script Unit :=
  spec.forM fun testName => do
    let names ← gets fun disk => disk.xml.names
    if reportFile testName ∉ names then
      writeResult platform testName notProduced

def spec : List String := GradedTest.all.map GradedTest.text

/-- The script, with the names that `os.listdir` has given in its order. -/
def main (order : DictOrder) (listdir : List String) : Script Unit := do
  listdir.forM fun xmlFile => parseTestResult platform order xmlFile
  generateFailedResult platform spec

end PMKVLab.Grading
