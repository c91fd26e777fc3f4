import PMKVLab.Store.MapRefinement
import PMKVLab.Store.ReturnCodes
import PMKVLab.Recovery.Workloads
import PMKVLab.Recovery.Iterations
import PMKVLab.Tests.ManyKeys
import PMKVLab.Bench.BackgroundWriter
import PMKVLab.Bench.PoolRemoval
import PMKVLab.Bench.StoreCalls
import PMKVLab.Bench.MissingKeys
import PMKVLab.Bench.RandomPeriod
import PMKVLab.Bench.FullStores
import PMKVLab.Bench.ProgressReports
import PMKVLab.Bench.InertNames
import PMKVLab.Bench.Latencies
import PMKVLab.Bench.Histogram
import PMKVLab.Bench.ArithmeticSafety
import PMKVLab.Bench.ValueWindows
import PMKVLab.Bench.CommandLine
import PMKVLab.Bench.CpuInfo
import PMKVLab.Env.BackgroundQueue
import PMKVLab.Env.ReadOnlyFiles
import PMKVLab.Env.StringFiles
import PMKVLab.Env.RandomAccessReads
import PMKVLab.Env.FileLocks
import PMKVLab.Runner.OptionParsing
import PMKVLab.Runner.Outcomes
import PMKVLab.Runner.ConfigOptions
import PMKVLab.Runner.AverageThroughput
import PMKVLab.Runner.ClockSpeed
import PMKVLab.Grading.OwnRuns
import PMKVLab.Example.LinkedList
import PMKVLab.Tests.FixedKeys
import PMKVLab.Grading.ReferenceRuns
import PMKVLab.Runner.GradedSubmissions
