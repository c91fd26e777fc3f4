import PMKVLab.Grading.Tests
import PMKVLab.Runner.Records

/-! `lab.py`: what the specification of this lab defines. -/

namespace PMKVLab.Runner

open PMKVLab.Library
open PMKVLab.Grading (GradedTest)

/-- The file with the benchmark results. -/
def perfCsv : String := "bench/perf.csv"

/-- The one figure of merit. -/
def averageThroughput : Py :=
  .dict [("file", .str perfCsv), ("field", .str "AverageThroughput"),
    ("name", .str "Average Throughput")]

/-- The attributes of `lab.py`; it leaves `env` to its default. -/
def lab : Field → Option Py
  | .labName => some (.str "PMKV")
  | .outputFiles => some (.list ((GradedTest.all.map GradedTest.text ++ [perfCsv]).map .str))
  | .inputFiles => some (.list [.str "src/pmkv.c"])
  | .runCmd => some (.list [.str "make", .str "bench_all"])
  | .cleanCmd => some (.list [.str "make", .str "clean"])
  | .repo => some (.str "https://github.com/UCSD-Modern-Storage-Systems/MSS-KV-lab")
  | .referenceTag => some (.str "314bfbd09ab3a28b446742234851eeef2c29dcba")
  | .timeLimit => some (.int 2400)
  | .validOptions => some (.dict [])
  | .defaultOptions => some (.dict [])
  | .figuresOfMerit => some (.list [averageThroughput])
  | .env => none

/-- The attribute that `LabSpec.load` looks up by the name of a field. -/
def labAttribute (name : String) : Option Py :=
  (Field.all.find? (·.name == name)).bind lab

/-- The specification of the lab. -/
def labSpec : LabSpec := fun field => ((lab field).or field.default).getD .none

end PMKVLab.Runner
