import Mathlib.Data.List.Forall2
import PMKVLab.Bench.Operations
import PMKVLab.Library.Scanning

/-! The command line of the benchmark: which arguments `main` accepts, and which flags a
list of arguments sets.
-/

namespace PMKVLab.Bench

open PMKVLab.Library PMKVLab.Library.Scanning

-----------------------------------------------------------------------------------------
-- Flags
-----------------------------------------------------------------------------------------

/-- All flags that arguments can set. -/
structure CommandLine extends Flags where
  benchmarks : List Char
  engine : List Char
  histogram : Bool
  readwritepercent : Int
  db : List Char
  dbSizeInGb : Int
deriving DecidableEq, Repr

/-- The initial values of the flags. -/
def CommandLine.default : CommandLine where
  num := 1000000
  reads := -1
  threads := 1
  keySize := 16
  valueSize := 100
  benchmarks :=
    ("fillseq,fillrandom,overwrite,readseq,readrandom,readmissing,deleteseq,deleterandom,"
      ++ "readwhilewriting,readrandomwriterandom").toList
  engine := "pmkv".toList
  histogram := false
  readwritepercent := 90
  db := "/mnt/ramdisk/bench".toList
  dbSizeInGb := 1

/-- The flags that take any text. -/
inductive TextFlag
  | benchmarks
  | engine
  | db
deriving DecidableEq, Repr

/-- The flags that take any number. -/
inductive NumberFlag
  | num
  | reads
  | threads
  | keySize
  | valueSize
  | readwritepercent
  | dbSizeInGb
deriving DecidableEq, Repr

inductive Flag
  | text (flag : TextFlag)
  | histogram
  | number (flag : NumberFlag)
deriving DecidableEq, Repr

/-- The characters of an argument before its value. -/
def Flag.name : Flag → String
  | .text .benchmarks => "--benchmarks="
  | .text .engine => "--engine="
  | .text .db => "--db="
  | .histogram => "--histogram="
  | .number .num => "--num="
  | .number .reads => "--reads="
  | .number .threads => "--threads="
  | .number .keySize => "--key_size="
  | .number .valueSize => "--value_size="
  | .number .readwritepercent => "--readwritepercent="
  | .number .dbSizeInGb => "--db_size_in_gb="

/-- An assignment to one flag. -/
inductive Setting
  | text (flag : TextFlag) (value : List Char)
  | histogram (shown : Bool)
  | number (flag : NumberFlag) (value : Int)
deriving DecidableEq, Repr

/-- The flag that the assignment sets. -/
def Setting.flag : Setting → Flag
  | .text flag _ => .text flag
  | .histogram _ => .histogram
  | .number flag _ => .number flag

def Setting.apply (flags : CommandLine) : Setting → CommandLine
  | .text .benchmarks value => { flags with benchmarks := value }
  | .text .engine value => { flags with engine := value }
  | .text .db value => { flags with db := value }
  | .histogram shown => { flags with histogram := shown }
  | .number .num n => { flags with num := n }
  | .number .reads n => { flags with reads := n }
  | .number .threads n => { flags with threads := n }
  | .number .keySize n => { flags with keySize := n }
  | .number .valueSize n => { flags with valueSize := n }
  | .number .readwritepercent n => { flags with readwritepercent := n }
  | .number .dbSizeInGb n => { flags with dbSizeInGb := n }

-----------------------------------------------------------------------------------------
-- `main`
-----------------------------------------------------------------------------------------

/-- `starts_with` or `strncmp`, and the text after the name. -/
def textAfter (name : String) (argument : List Char) : Option (List Char) :=
  if name.toList <+: argument then some (argument.drop name.toList.length) else none

/-- The `int` of a number: the C library reads a `long`, saturating, and keeps its low bits.
Numbers outside of `int` are left undefined by the language.
-/
def storedInt (value : Int) : Int := toInt32 (max (-2 ^ 63) (min value (2 ^ 63 - 1)))

/-- `sscanf(argument, "<name>%d%c", &n, &junk) == 1`, with the value of `n`. -/
def numberAfter (name : String) (argument : List Char) : Option Int :=
  (scanNumber name.toList argument).map storedInt

/-- The test for one flag in `main`, with the assignment it makes. The histogram accepts two
numbers only.
-/
def Flag.test (argument : List Char) : Flag → Option Setting
  | .text flag => (textAfter (Flag.text flag).name argument).map (.text flag)
  | .histogram =>
      match numberAfter Flag.histogram.name argument with
      | some n => if n = 0 ∨ n = 1 then some (.histogram (n ≠ 0)) else none
      | none => none
  | .number flag => (numberAfter (Flag.number flag).name argument).map (.number flag)

/-- The order of the tests. -/
def testOrder : List Flag :=
  [.text .benchmarks, .text .engine, .histogram, .number .num, .number .reads,
    .number .threads, .number .keySize, .number .valueSize, .number .readwritepercent,
    .text .db, .number .dbSizeInGb]

/-- The assignment of the first test that accepts the argument. -/
def readSetting (argument : List Char) : Option Setting :=
  testOrder.findSome? (Flag.test argument)

/-- The two ways in which `main` gives up; both exit with status 1. -/
inductive Exit
  | usage
  | invalidFlag (argument : List Char)
deriving DecidableEq, Repr

/-- The loop over the arguments. -/
def parseArguments : List (List Char) → CommandLine → Except Exit CommandLine
  | [], flags => .ok flags
  | argument :: rest, flags =>
      match readSetting argument with
      | some setting => parseArguments rest (setting.apply flags)
      | none => .error (.invalidFlag argument)

/-- The first arguments that ask for the usage text. -/
def usageWords : List (List Char) :=
  ["?", "-?", "h", "-h", "-help", "--help"].map String.toList

/-- `main` up to the construction of `Benchmark`, on the arguments after the program's name. -/
def main (arguments : List (List Char)) : Except Exit CommandLine :=
  if ∃ word ∈ arguments.head?, word ∈ usageWords then .error .usage
  else parseArguments arguments .default

-----------------------------------------------------------------------------------------
-- What an argument means
-----------------------------------------------------------------------------------------

/-- The argument is the name of the setting's flag with its value: a text as it is, a number
as a numeral.
-/
def Setting.Written (setting : Setting) (argument : List Char) : Prop :=
  match setting with
  | .text _ value => argument = setting.flag.name.toList ++ value
  | .histogram shown =>
      ∃ numeral : Numeral, argument = setting.flag.name.toList ++ numeral.text
        ∧ storedInt numeral.value = shown.toNat
  | .number _ value =>
      ∃ numeral : Numeral, argument = setting.flag.name.toList ++ numeral.text
        ∧ storedInt numeral.value = value

theorem textAfter_eq_some_iff {name : String} {argument text : List Char}
    : textAfter name argument = some text ↔ argument = name.toList ++ text := by
  unfold textAfter
  constructor
  · intro found
    split at found
    · next starts =>
        obtain ⟨rest, rfl⟩ := starts
        rw [List.drop_left, Option.some.injEq] at found
        rw [found]
    · cases found
  · rintro rfl
    rw [if_pos (List.prefix_append _ _), List.drop_left]

theorem numberAfter_eq_some_iff {name : String} {argument : List Char} {value : Int}
    : numberAfter name argument = some value
      ↔ ∃ numeral : Numeral, argument = name.toList ++ numeral.text
          ∧ storedInt numeral.value = value := by
  simp only [numberAfter, Option.map_eq_some_iff, scanNumber_eq_some_iff]
  constructor
  · rintro ⟨number, ⟨numeral, text, rfl⟩, stored⟩
    exact ⟨numeral, text, stored⟩
  · rintro ⟨numeral, text, stored⟩
    exact ⟨numeral.value, ⟨numeral, text, rfl⟩, stored⟩

/-- A written argument starts with the name of its flag. -/
theorem Setting.Written.starts {setting : Setting} {argument : List Char}
    (written : setting.Written argument)
    : setting.flag.name.toList <+: argument := by
  cases setting with
  | text flag value => exact ⟨value, written.symm⟩
  | histogram shown =>
      obtain ⟨numeral, same, -⟩ := written
      exact ⟨numeral.text, same.symm⟩
  | number flag value =>
      obtain ⟨numeral, same, -⟩ := written
      exact ⟨numeral.text, same.symm⟩

/-- No name is the start of another one, since each ends at its only equals sign. -/
theorem Flag.name_incomparable {flag other : Flag}
    (within : flag.name.toList <+: other.name.toList)
    : flag = other := by
  revert within
  rcases flag with ⟨_ | _ | _⟩ | _ | ⟨_ | _ | _ | _ | _ | _ | _⟩ <;>
    rcases other with ⟨_ | _ | _⟩ | _ | ⟨_ | _ | _ | _ | _ | _ | _⟩ <;> decide

/-- An argument starts with the name of at most one flag. -/
theorem Flag.eq_of_starts {flag other : Flag} {argument : List Char}
    (starts : flag.name.toList <+: argument) (otherStarts : other.name.toList <+: argument)
    : flag = other := by
  rcases List.prefix_or_prefix_of_prefix starts otherStarts with within | within
  · exact name_incomparable within
  · exact (name_incomparable within).symm

/-- Two readings of one number agree. -/
theorem storedInt_unique {name : String} {argument : List Char} {value other : Int}
    (one : ∃ numeral : Numeral, argument = name.toList ++ numeral.text
      ∧ storedInt numeral.value = value)
    (two : ∃ numeral : Numeral, argument = name.toList ++ numeral.text
      ∧ storedInt numeral.value = other)
    : value = other := by
  have first := numberAfter_eq_some_iff.mpr one
  have second := numberAfter_eq_some_iff.mpr two
  exact Option.some.inj (first.symm.trans second)

/-- An argument makes at most one assignment: its name picks the flag, and the rest is one
text or one number.
-/
theorem Setting.Written.unique {setting other : Setting} {argument : List Char}
    (written : setting.Written argument) (otherWritten : other.Written argument)
    : setting = other := by
  have same := Flag.eq_of_starts written.starts otherWritten.starts
  cases setting with
  | text flag value =>
      cases other with
      | text otherFlag otherValue =>
          cases same
          rw [List.append_cancel_left (written.symm.trans otherWritten)]
      | histogram shown => cases same
      | number otherFlag otherValue => cases same
  | histogram shown =>
      cases other with
      | text otherFlag otherValue => cases same
      | histogram otherShown =>
          have values := storedInt_unique written otherWritten
          revert values
          cases shown <;> cases otherShown <;> decide
      | number otherFlag otherValue => cases same
  | number flag value =>
      cases other with
      | text otherFlag otherValue => cases same
      | histogram shown => cases same
      | number otherFlag otherValue =>
          cases same
          rw [storedInt_unique written otherWritten]

/-- What a test reads is written in the argument. -/
theorem Flag.written_of_test {flag : Flag} {argument : List Char} {setting : Setting}
    (read : flag.test argument = some setting)
    : setting.Written argument := by
  cases flag with
  | text flag =>
      obtain ⟨value, found, rfl⟩ := Option.map_eq_some_iff.mp read
      exact textAfter_eq_some_iff.mp found
  | histogram =>
      simp only [test] at read
      split at read
      · next n found =>
          obtain ⟨numeral, text, stored⟩ := numberAfter_eq_some_iff.mp found
          split at read
          · next small =>
              cases read
              refine ⟨numeral, text, ?_⟩
              rcases small with rfl | rfl
              · exact stored
              · exact stored
          · cases read
      · cases read
  | number flag =>
      obtain ⟨value, found, rfl⟩ := Option.map_eq_some_iff.mp read
      exact numberAfter_eq_some_iff.mp found

/-- The test of its flag accepts a written setting. -/
theorem Setting.Written.test_isSome {setting : Setting} {argument : List Char}
    (written : setting.Written argument)
    : (setting.flag.test argument).isSome = true := by
  cases setting with
  | text flag value =>
      have found : textAfter (Flag.text flag).name argument = some value :=
        textAfter_eq_some_iff.mpr written
      simp [Setting.flag, Flag.test, found]
  | histogram shown =>
      have found : numberAfter Flag.histogram.name argument = some (shown.toNat : Int) :=
        numberAfter_eq_some_iff.mpr written
      cases shown <;> simp [Setting.flag, Flag.test, found]
  | number flag value =>
      have found : numberAfter (Flag.number flag).name argument = some value :=
        numberAfter_eq_some_iff.mpr written
      simp [Setting.flag, Flag.test, found]

theorem mem_testOrder (flag : Flag) : flag ∈ testOrder := by
  rcases flag with ⟨_ | _ | _⟩ | _ | ⟨_ | _ | _ | _ | _ | _ | _⟩ <;> decide

/-- `main` reads exactly what is written: no earlier test takes an argument away from the
test of its flag.
-/
theorem readSetting_eq_some_iff {argument : List Char} {setting : Setting}
    : readSetting argument = some setting ↔ setting.Written argument := by
  constructor
  · intro read
    obtain ⟨flag, -, found⟩ := List.exists_of_findSome?_eq_some read
    exact flag.written_of_test found
  · intro written
    cases read : readSetting argument with
    | none =>
        have failed := List.findSome?_eq_none_iff.mp read _ (mem_testOrder setting.flag)
        have passes := written.test_isSome
        rw [failed] at passes
        cases passes
    | some other =>
        obtain ⟨flag, -, found⟩ := List.exists_of_findSome?_eq_some read
        rw [(flag.written_of_test found).unique written]

-----------------------------------------------------------------------------------------
-- What a command line means
-----------------------------------------------------------------------------------------

/-- The flags after assignments from the left to the right. -/
def applyAll (settings : List Setting) (flags : CommandLine) : CommandLine :=
  settings.foldl Setting.apply flags

/-- The loop succeeds on written arguments only, by induction on them. -/
theorem parseArguments_eq_ok_iff {arguments : List (List Char)} {flags result : CommandLine}
    : parseArguments arguments flags = .ok result
      ↔ ∃ settings, List.Forall₂ Setting.Written settings arguments
          ∧ result = applyAll settings flags := by
  induction arguments generalizing flags with
  | nil =>
      simp only [parseArguments, List.forall₂_nil_right_iff, Except.ok.injEq]
      constructor
      · rintro rfl
        exact ⟨[], rfl, rfl⟩
      · rintro ⟨settings, rfl, rfl⟩
        rfl
  | cons argument rest ih =>
      cases read : readSetting argument with
      | none =>
          simp only [parseArguments, read, reduceCtorEq, false_iff]
          rintro ⟨settings, written, -⟩
          obtain ⟨setting, -, first, -, -⟩ := List.forall₂_cons_right_iff.mp written
          rw [readSetting_eq_some_iff.mpr first] at read
          cases read
      | some setting =>
          have first := readSetting_eq_some_iff.mp read
          simp only [parseArguments, read, ih]
          constructor
          · rintro ⟨settings, written, rfl⟩
            exact ⟨setting :: settings, .cons first written, rfl⟩
          · rintro ⟨settings, written, rfl⟩
            obtain ⟨other, others, otherFirst, remaining, rfl⟩ :=
              List.forall₂_cons_right_iff.mp written
            rw [otherFirst.unique first]
            exact ⟨others, remaining, rfl⟩

/-- The loop stops at the first argument that is not written. -/
theorem parseArguments_eq_error_iff {arguments : List (List Char)} {flags : CommandLine}
    {stop : Exit}
    : parseArguments arguments flags = .error stop
      ↔ ∃ before argument after, arguments = before ++ argument :: after
          ∧ (∀ earlier ∈ before, ∃ setting : Setting, setting.Written earlier)
          ∧ (∀ setting : Setting, ¬ setting.Written argument)
          ∧ stop = .invalidFlag argument := by
  induction arguments generalizing flags with
  | nil => simp [parseArguments]
  | cons first rest ih =>
      cases read : readSetting first with
      | none =>
          have unwritten : ∀ setting : Setting, ¬ setting.Written first := by
            intro setting written
            rw [readSetting_eq_some_iff.mpr written] at read
            cases read
          simp only [parseArguments, read, Except.error.injEq]
          constructor
          · rintro rfl
            exact ⟨[], first, rest, rfl, by simp, unwritten, rfl⟩
          · rintro ⟨before, argument, after, whole, written, -, rfl⟩
            cases before with
            | nil =>
                cases whole
                rfl
            | cons head before =>
                cases whole
                obtain ⟨setting, written⟩ := written first List.mem_cons_self
                exact absurd written (unwritten setting)
      | some setting =>
          have written := readSetting_eq_some_iff.mp read
          simp only [parseArguments, read, ih]
          constructor
          · rintro ⟨before, argument, after, rfl, earlier, rest⟩
            refine ⟨first :: before, argument, after, rfl, ?_, rest⟩
            intro other member
            rcases List.mem_cons.mp member with rfl | member
            · exact ⟨setting, written⟩
            · exact earlier other member
          · rintro ⟨before, argument, after, whole, earlier, unwritten, rfl⟩
            cases before with
            | nil =>
                cases whole
                exact absurd written (unwritten setting)
            | cons head before =>
                cases whole
                exact ⟨before, argument, after, rfl,
                  fun other member => earlier other (List.mem_cons_of_mem _ member),
                  unwritten, rfl⟩

/-- The words that ask for the usage text are no flags. -/
theorem not_written_of_usageWord {word : List Char} (member : word ∈ usageWords)
    (setting : Setting)
    : ¬ setting.Written word := by
  intro written
  have starts := written.starts
  simp only [usageWords, List.map_cons, List.map_nil, List.mem_cons, List.not_mem_nil,
    or_false] at member
  generalize setting.flag = flag at starts
  revert starts
  rcases member with rfl | rfl | rfl | rfl | rfl | rfl <;>
    rcases flag with ⟨_ | _ | _⟩ | _ | ⟨_ | _ | _ | _ | _ | _ | _⟩ <;> decide

/-- A first argument that asks for the usage text is no flag, so that the loop alone decides
which command lines are accepted.
-/
theorem main_eq_ok_iff {arguments : List (List Char)} {flags : CommandLine}
    : main arguments = .ok flags
      ↔ ∃ settings, List.Forall₂ Setting.Written settings arguments
          ∧ flags = applyAll settings .default := by
  rw [← parseArguments_eq_ok_iff, main]
  split
  · next asks =>
      obtain ⟨word, first, usage⟩ := asks
      obtain ⟨rest, rfl⟩ := List.head?_eq_some_iff.mp first
      have unread : readSetting word = none := by
        rw [Option.eq_none_iff_forall_ne_some]
        intro setting read
        exact not_written_of_usageWord usage setting (readSetting_eq_some_iff.mp read)
      simp [parseArguments, unread]
  · exact Iff.rfl

/-- `main` runs the benchmarks exactly when every argument is written as a flag with its
value, and then the flags hold what the arguments assign from the left to the right. It
gives up at the first argument that is no flag with a value.
-/
theorem main_eq_iff (arguments : List (List Char))
    : (∀ flags, main arguments = .ok flags
        ↔ ∃ settings, List.Forall₂ Setting.Written settings arguments
            ∧ flags = applyAll settings .default)
      ∧ (∀ argument, main arguments = .error (.invalidFlag argument)
        ↔ (∀ word ∈ arguments.head?, word ∉ usageWords)
          ∧ ∃ before after, arguments = before ++ argument :: after
            ∧ (∀ earlier ∈ before, ∃ setting : Setting, setting.Written earlier)
            ∧ ∀ setting : Setting, ¬ setting.Written argument) := by
  refine ⟨fun _ => main_eq_ok_iff, fun argument => ?_⟩
  by_cases asks : ∃ word ∈ arguments.head?, word ∈ usageWords
  · rw [main, if_pos asks]
    obtain ⟨word, first, usage⟩ := asks
    simp only [Except.error.injEq, reduceCtorEq, false_iff]
    rintro ⟨none, -⟩
    exact none word first usage
  · rw [main, if_neg asks, parseArguments_eq_error_iff]
    push Not at asks
    constructor
    · rintro ⟨before, other, after, whole, earlier, unwritten, same⟩
      cases same
      exact ⟨asks, before, after, whole, earlier, unwritten⟩
    · rintro ⟨-, before, after, whole, earlier, unwritten⟩
      exact ⟨before, argument, after, whole, earlier, unwritten, rfl⟩

-----------------------------------------------------------------------------------------
-- Printing and parsing
-----------------------------------------------------------------------------------------

def CommandLine.text (flags : CommandLine) : TextFlag → List Char
  | .benchmarks => flags.benchmarks
  | .engine => flags.engine
  | .db => flags.db

def CommandLine.number (flags : CommandLine) : NumberFlag → Int
  | .num => flags.num
  | .reads => flags.reads
  | .threads => flags.threads
  | .keySize => flags.keySize
  | .valueSize => flags.valueSize
  | .readwritepercent => flags.readwritepercent
  | .dbSizeInGb => flags.dbSizeInGb

/-- The assignment of a flag's own value. -/
def CommandLine.setting (flags : CommandLine) : Flag → Setting
  | .text flag => .text flag (flags.text flag)
  | .histogram => .histogram flags.histogram
  | .number flag => .number flag (flags.number flag)

/-- The numbers fit into an `int`. -/
def CommandLine.InRange (flags : CommandLine) : Prop :=
  ∀ flag, -2 ^ 31 ≤ flags.number flag ∧ flags.number flag < 2 ^ 31

/-- The plain way to write an assignment. -/
def Setting.argument (setting : Setting) : List Char :=
  setting.flag.name.toList ++
    match setting with
    | .text _ value => value
    | .histogram shown => (Numeral.ofInt shown.toNat).text
    | .number _ value => (Numeral.ofInt value).text

theorem storedInt_of_range {value : Int} (low : -2 ^ 31 ≤ value) (high : value < 2 ^ 31)
    : storedInt value = value := by
  rw [storedInt, min_eq_left (by omega), max_eq_right (by omega), toInt32, Int.bmod_def]
  omega

theorem CommandLine.InRange.written {flags : CommandLine} (range : flags.InRange) (flag : Flag)
    : (flags.setting flag).Written (flags.setting flag).argument := by
  cases flag with
  | text flag => rfl
  | histogram =>
      refine ⟨_, rfl, ?_⟩
      rw [Numeral.value_ofInt]
      cases flags.histogram <;> decide
  | number flag =>
      refine ⟨_, rfl, ?_⟩
      rw [Numeral.value_ofInt]
      exact storedInt_of_range (range flag).1 (range flag).2

/-- Assignments to different flags commute. -/
theorem Setting.apply_comm {one two : Setting} (different : one.flag ≠ two.flag)
    (flags : CommandLine)
    : two.apply (one.apply flags) = one.apply (two.apply flags) := by
  rcases one with ⟨_ | _ | _, _⟩ | _ | ⟨_ | _ | _ | _ | _ | _ | _, _⟩ <;>
    rcases two with ⟨_ | _ | _, _⟩ | _ | ⟨_ | _ | _ | _ | _ | _ | _, _⟩ <;>
    first | rfl | exact absurd rfl different

theorem CommandLine.flag_setting (flags : CommandLine) (flag : Flag)
    : (flags.setting flag).flag = flag := by
  cases flag <;> rfl

/-- Assigning all flags forgets what was there, in whichever order. -/
theorem applyAll_setting (flags start : CommandLine) {order : List Flag}
    (permuted : order.Perm testOrder)
    : applyAll (order.map flags.setting) start = flags := by
  have commute (one two : Flag) (current : CommandLine)
      : (flags.setting two).apply ((flags.setting one).apply current)
        = (flags.setting one).apply ((flags.setting two).apply current) := by
    by_cases same : one = two
    · rw [same]
    · apply Setting.apply_comm
      rw [flags.flag_setting, flags.flag_setting]
      exact same
  rw [applyAll, List.foldl_map,
    permuted.foldl_eq' (fun one _ two _ current => commute one two current)]
  simp only [testOrder, List.foldl_cons, List.foldl_nil, CommandLine.setting, Setting.apply,
    CommandLine.text, CommandLine.number]

/-- The flags survive their printing: after any arguments that `main` accepts, the plain
writings of all flags in any order set every flag to its value.
-/
theorem main_roundTrip {flags before : CommandLine} (range : flags.InRange)
    {earlier : List (List Char)} (accepted : main earlier = .ok before) {order : List Flag}
    (permuted : order.Perm testOrder)
    : main (earlier ++ order.map (fun flag => (flags.setting flag).argument)) = .ok flags := by
  obtain ⟨settings, written, -⟩ := main_eq_ok_iff.mp accepted
  have plain : List.Forall₂ Setting.Written (order.map flags.setting)
      (order.map (fun flag => (flags.setting flag).argument)) := by
    rw [List.forall₂_map_left_iff, List.forall₂_map_right_iff, List.forall₂_same]
    exact fun flag _ => range.written flag
  refine main_eq_ok_iff.mpr ⟨settings ++ order.map flags.setting, List.rel_append written plain, ?_⟩
  rw [applyAll, List.foldl_append]
  exact (applyAll_setting flags _ permuted).symm

/-- Witness: an earlier number with a blank and a sign gives way to the printed flags. -/
theorem main_roundTrip_reversed
    : let flags : CommandLine :=
        { CommandLine.default with
          benchmarks := "fillseq,readseq".toList, dbSizeInGb := 4, threads := 4, num := 500000 }
      main ("--num= +7".toList
        :: testOrder.reverse.map (fun flag => (flags.setting flag).argument)) = .ok flags := by
  intro flags
  have accepted : main ["--num= +7".toList] = .ok { CommandLine.default with num := 7 } := by
    decide +kernel
  exact main_roundTrip (fun flag => by cases flag <;> decide) accepted
    (List.reverse_perm testOrder)

end PMKVLab.Bench
