import PMKVLab.Library.Python

/-! Reading comma-separated text as Python's `csv.DictReader` does in its default dialect:
the character automaton of `csv.reader`, and one dictionary per data row.
-/

namespace PMKVLab.Library.Csv

inductive State
  | startRecord
  | startField
  | inField
  | inQuotedField
  | quoteInQuotedField
  | eatNewline
deriving DecidableEq, Repr

structure Parser where
  state : State := .startRecord
  field : List Char := []
  fields : List String := []

def fieldLimit : Nat := 131072

namespace Parser

def saveField (parser : Parser) : Parser :=
  { parser with field := [], fields := parser.fields ++ [String.ofList parser.field] }

def addChar (parser : Parser) (character : Char) (next : State) : Except Raised Parser :=
  if fieldLimit ≤ parser.field.length then
    .error ⟨.named "Error", "field larger than field limit (131072)"⟩
  else
    .ok { parser with field := parser.field ++ [character], state := next }

/-- Whether a character, or the end of the input line, ends an unquoted field. -/
def endsLine : Option Char → Bool
  | none | some '\n' | some '\r' => true
  | _ => false

def endRecord (parser : Parser) (character : Option Char) : Parser :=
  { parser.saveField with
    state := if character.isNone then .startRecord else .eatNewline }

def startField (parser : Parser) (character : Option Char) : Except Raised Parser :=
  match character with
  | some '"' => .ok { parser with state := .inQuotedField }
  | some ',' => .ok { parser.saveField with state := .startField }
  | some other =>
      if endsLine character then .ok (parser.endRecord character)
      else parser.addChar other .inField
  | none => .ok (parser.endRecord character)

/-- Process one character of a line, or the end of the line. -/
def process (parser : Parser) (character : Option Char) : Except Raised Parser :=
  match parser.state, character with
  | .startRecord, none => .ok parser
  | .startRecord, some other =>
      if endsLine character then .ok { parser with state := .eatNewline }
      else parser.startField (some other)
  | .startField, character => parser.startField character
  | .inField, some ',' => .ok { parser.saveField with state := .startField }
  | .inField, some other =>
      if endsLine character then .ok (parser.endRecord character)
      else parser.addChar other .inField
  | .inField, none => .ok (parser.endRecord none)
  | .inQuotedField, none => .ok parser
  | .inQuotedField, some '"' => .ok { parser with state := .quoteInQuotedField }
  | .inQuotedField, some other => parser.addChar other .inQuotedField
  | .quoteInQuotedField, some '"' => parser.addChar '"' .inQuotedField
  | .quoteInQuotedField, some ',' => .ok { parser.saveField with state := .startField }
  | .quoteInQuotedField, some other =>
      if endsLine character then .ok (parser.endRecord character)
      else parser.addChar other .inField
  | .quoteInQuotedField, none => .ok (parser.endRecord none)
  | .eatNewline, none => .ok { parser with state := .startRecord }
  | .eatNewline, some _ =>
      if endsLine character then .ok parser
      else .error ⟨.named "Error", "new-line character seen in unquoted field - "
        ++ "do you need to open the file in universal-newline mode?"⟩

end Parser

/-- The lines of a text, each with its line feed. -/
def lines : List Char → List (List Char)
  | [] => []
  | '\n' :: rest => ['\n'] :: lines rest
  | character :: rest =>
      match lines rest with
      | [] => [[character]]
      | line :: others => (character :: line) :: others

/-- The records of the remaining lines; a quoted field continues a record on the next line. -/
def records (parser : Parser) : List (List Char) → Except Raised (List (List String))
  | [] =>
      if parser.field ≠ [] ∨ parser.state = .inQuotedField then
        .ok [parser.saveField.fields]
      else .ok []
  | line :: rest => do
      let scanned ← line.foldlM (fun parser character => parser.process (some character)) parser
      let ended ← scanned.process none
      if ended.state = .startRecord then
        let later ← records {} rest
        .ok (ended.fields :: later)
      else records ended rest

/-- A data row: its cells by column name, and the cells beyond the header under `None`. -/
structure Row where
  cells : List (String × Py)
  surplus : Option (List String)

/-- Pair a record with the header; columns without a cell hold `None`. -/
def rowOf (header record : List String) : Row where
  cells :=
    updateItems (updateItems [] (header.zip (record.map Py.str)))
      ((header.drop record.length).map (·, Py.none))
  surplus :=
    if header.length < record.length then some (record.drop header.length) else none

/-- `list(csv.DictReader(text))`: the first record is the header, empty records are skipped. -/
def dictRows (text : String) : Except Raised (List Row) := do
  match ← records {} (lines text.toList) with
  | [] => .ok []
  | header :: others => .ok ((others.filter (· ≠ [])).map (rowOf header))

/-- The lines `",".join(fields)` of a table of texts. -/
def join (rows : List (List String)) : String :=
  String.ofList (rows.flatMap fun fields => [','].intercalate (fields.map String.toList) ++ ['\n'])

/-- `row[column]`. -/
def Row.getItem (row : Row) (column : Py) : Except Raised Py :=
  match column, row.surplus with
  | .none, some cells => .ok (.list (cells.map .str))
  | .none, none => .error ⟨.keyError, "None"⟩
  | column, _ => (Py.dict row.cells).getItem column

-- A text of one line is all header.
example : dictRows "# Execution failed\n" = .ok [] := by rfl

-----------------------------------------------------------------------------------------
-- Lines and records of plain fields
-----------------------------------------------------------------------------------------

/-- A text without line feed in front of one is a line. -/
theorem lines_append_cons {line : List Char} (whole : '\n' ∉ line) (rest : List Char)
    : lines (line ++ '\n' :: rest) = (line ++ ['\n']) :: lines rest := by
  induction line with
  | nil => rfl
  | cons character others ih =>
      rw [List.mem_cons, not_or] at whole
      rw [List.cons_append, lines, ih whole.2]
      · rfl
      · exact fun same => whole.1 same.symm

/-- A text written line by line has these lines. -/
theorem lines_flatMap {texts : List (List Char)} (whole : ∀ text ∈ texts, '\n' ∉ text)
    : lines (texts.flatMap (· ++ ['\n'])) = texts.map (· ++ ['\n']) := by
  induction texts with
  | nil => rfl
  | cons text rest ih =>
      rw [List.forall_mem_cons] at whole
      rw [List.flatMap_cons, List.append_assoc, List.singleton_append,
        lines_append_cons whole.1, ih whole.2, List.map_cons]

/-- A character that stands for itself in a field without quotes. -/
def Unquoted (character : Char) : Prop :=
  character ≠ '"' ∧ character ≠ ',' ∧ character ≠ '\n' ∧ character ≠ '\r'

/-- A field that is written without quotes and read within the limit. -/
structure Plain (field : List Char) : Prop where
  nonempty : field ≠ []
  short : field.length ≤ fieldLimit
  unquoted : ∀ character ∈ field, Unquoted character

theorem Unquoted.endsLine {character : Char} (unquoted : Unquoted character)
    : Parser.endsLine (some character) = false := by
  obtain ⟨_, _, noLineFeed, noReturn⟩ := unquoted
  unfold Parser.endsLine
  split <;> simp_all

/-- The first character of a field, in a record that may be new. -/
theorem process_first {character : Char} (unquoted : Unquoted character) {state : State}
    (starts : state = .startRecord ∨ state = .startField) (fields : List String)
    : Parser.process ⟨state, [], fields⟩ (some character)
      = .ok ⟨.inField, [character], fields⟩ := by
  have started : Parser.startField ⟨state, [], fields⟩ (some character)
      = .ok ⟨.inField, [character], fields⟩ := by
    unfold Parser.startField
    split
    · next same => exact absurd (Option.some.inj same) unquoted.1
    · next same => exact absurd (Option.some.inj same) unquoted.2.1
    · next same =>
      cases same
      simp [unquoted.endsLine, Parser.addChar, fieldLimit]
    · next same => cases same
  rcases starts with rfl | rfl
  · rw [← started]
    simp only [Parser.process, unquoted.endsLine, Bool.false_eq_true, if_false]
  · rw [← started]
    rfl

/-- A further character of a field. -/
theorem process_inField {character : Char} (unquoted : Unquoted character) {field : List Char}
    (short : field.length < fieldLimit) (fields : List String)
    : Parser.process ⟨.inField, field, fields⟩ (some character)
      = .ok ⟨.inField, field ++ [character], fields⟩ := by
  have scanned : Parser.process ⟨.inField, field, fields⟩ (some character)
      = if Parser.endsLine (some character) then
          .ok (Parser.endRecord ⟨.inField, field, fields⟩ (some character))
        else Parser.addChar ⟨.inField, field, fields⟩ character .inField := by
    have noComma := unquoted.2.1
    unfold Parser.process
    split <;> simp_all
  rw [scanned, unquoted.endsLine, if_neg Bool.false_ne_true, Parser.addChar,
    if_neg (Nat.not_le.mpr short)]

/-- The characters of a line one after another. -/
def scan (parser : Parser) (text : List Char) : Except Raised Parser :=
  text.foldlM (fun parser character => parser.process (some character)) parser

theorem scan_cons {parser next : Parser} {character : Char}
    (processed : parser.process (some character) = .ok next) (text : List Char)
    : scan parser (character :: text) = scan next text := by
  rw [scan, List.foldlM_cons, processed]
  rfl

/-- Inside a field plain characters are collected, by induction on them. -/
theorem scan_inField {text : List Char} (unquoted : ∀ character ∈ text, Unquoted character)
    {field : List Char} (short : field.length + text.length ≤ fieldLimit)
    (fields : List String) (rest : List Char)
    : scan ⟨.inField, field, fields⟩ (text ++ rest)
      = scan ⟨.inField, field ++ text, fields⟩ rest := by
  induction text generalizing field with
  | nil => rw [List.nil_append, List.append_nil]
  | cons character others ih =>
      rw [List.forall_mem_cons] at unquoted
      have room : field.length < fieldLimit := by
        rw [List.length_cons] at short
        omega
      have later : (field ++ [character]).length + others.length ≤ fieldLimit := by
        rw [List.length_append, List.length_singleton, Nat.add_assoc, Nat.add_comm 1]
        exact short
      rw [List.cons_append, scan_cons (process_inField unquoted.1 room fields),
        ih unquoted.2 later, List.append_assoc, List.singleton_append]

/-- A whole field. -/
theorem scan_field {field : List Char} (plain : Plain field) {state : State}
    (starts : state = .startRecord ∨ state = .startField) (fields : List String)
    (rest : List Char)
    : scan ⟨state, [], fields⟩ (field ++ rest) = scan ⟨.inField, field, fields⟩ rest := by
  obtain ⟨nonempty, short, unquoted⟩ := plain
  cases field with
  | nil => exact absurd rfl nonempty
  | cons first others =>
      rw [List.forall_mem_cons] at unquoted
      rw [List.cons_append, scan_cons (process_first unquoted.1 starts fields),
        scan_inField unquoted.2 (by simpa [Nat.add_comm] using short)]
      rfl

/-- A line of plain fields between commas. -/
theorem scan_line {fields : List (List Char)} (nonempty : fields ≠ [])
    (plain : ∀ field ∈ fields, Plain field) {state : State}
    (starts : state = .startRecord ∨ state = .startField) (earlier : List String)
    : scan ⟨state, [], earlier⟩ ([','].intercalate fields ++ ['\n'])
      = .ok ⟨.eatNewline, [], earlier ++ fields.map String.ofList⟩ := by
  induction fields generalizing state earlier with
  | nil => exact absurd rfl nonempty
  | cons field rest ih =>
      rw [List.forall_mem_cons] at plain
      cases rest with
      | nil =>
          rw [List.intercalate_singleton, scan_field plain.1 starts]
          rfl
      | cons next others =>
          rw [List.intercalate_cons_cons, List.append_assoc, List.append_assoc,
            scan_field plain.1 starts, List.singleton_append]
          have comma : Parser.process ⟨.inField, field, earlier⟩ (some ',')
              = .ok ⟨.startField, [], earlier ++ [String.ofList field]⟩ :=
            rfl
          rw [scan_cons comma, ih (List.cons_ne_nil next others) plain.2 (.inr rfl)]
          simp

/-- Plain fields that were joined with commas are read back. -/
theorem records_line {fields : List (List Char)} (nonempty : fields ≠ [])
    (plain : ∀ field ∈ fields, Plain field) (rest : List (List Char))
    : records {} (([','].intercalate fields ++ ['\n']) :: rest)
      = (do
        let later ← records {} rest
        .ok (fields.map String.ofList :: later)) := by
  have scanned : ([','].intercalate fields ++ ['\n']).foldlM
      (fun parser character => parser.process (some character)) ({} : Parser)
      = .ok ⟨.eatNewline, [], [] ++ fields.map String.ofList⟩ :=
    scan_line nonempty plain (.inl rfl) []
  rw [records, scanned]
  rfl

/-- A record of plain fields is written on one line. -/
theorem notMem_intercalate {fields : List (List Char)} (plain : ∀ field ∈ fields, Plain field)
    : '\n' ∉ [','].intercalate fields := by
  induction fields with
  | nil => simp
  | cons field rest ih =>
      rw [List.forall_mem_cons] at plain
      have own : '\n' ∉ field := fun member => (plain.1.unquoted _ member).2.2.1 rfl
      cases rest with
      | nil => simpa using own
      | cons next others =>
          rw [List.intercalate_cons_cons]
          simpa [own] using ih plain.2

/-- Two lines of plain fields are a header and one row. -/
theorem dictRows_join {header row : List String} (columns : header ≠ []) (cells : row ≠ [])
    (plainHeader : ∀ field ∈ header, Plain field.toList)
    (plainRow : ∀ field ∈ row, Plain field.toList)
    : dictRows (join [header, row]) = .ok [rowOf header row] := by
  have texts (fields : List String) : (fields.map String.toList).map String.ofList = fields := by
    simp
  rw [← List.forall_mem_map] at plainHeader plainRow
  have whole : ∀ text
      ∈ [header, row].map fun fields => [','].intercalate (fields.map String.toList),
      '\n' ∉ text := by
    simp only [List.map_cons, List.map_nil, List.forall_mem_cons]
    exact ⟨notMem_intercalate plainHeader, notMem_intercalate plainRow, by simp⟩
  have split := lines_flatMap whole
  rw [List.flatMap_map, List.map_map] at split
  have kept : ([row].filter (· ≠ [])) = [row] := by
    simpa using cells
  rw [dictRows, join, String.toList_ofList, split]
  simp only [List.map_cons, List.map_nil, Function.comp_apply]
  rw [records_line (by simpa using columns) plainHeader,
    records_line (by simpa using cells) plainRow, texts, texts]
  change Except.ok (([row].filter (· ≠ [])).map (rowOf header)) = _
  rw [kept]
  rfl

/-- The first column of a row. -/
theorem rowOf_first {first cell : String} {columns cells : List String}
    (distinct : first ∉ columns) (complete : columns.length ≤ cells.length)
    : (rowOf (first :: columns) (cell :: cells)).getItem (.str first) = .ok (.str cell) := by
  have full : (first :: columns).drop (cell :: cells).length = [] := by
    rw [List.drop_eq_nil_iff, List.length_cons, List.length_cons]
    omega
  have others : first ∉ (columns.zip (cells.map Py.str)).map Prod.fst := by
    intro member
    obtain ⟨⟨column, value⟩, pair, rfl⟩ := List.mem_map.mp member
    exact distinct (List.of_mem_zip pair).1
  have found : (rowOf (first :: columns) (cell :: cells)).cells.lookup first
      = some (.str cell) := by
    simp only [rowOf, full, List.map_cons, List.map_nil, List.zip_cons_cons]
    exact (lookup_updateItems others [(first, Py.str cell)]).trans (by simp)
  unfold Row.getItem
  simp only [Py.getItem, found]

end PMKVLab.Library.Csv
