import PMKVLab.Library.Numbers
import PMKVLab.Runner.ApplyOptions

/-! What a normal return of `apply_options` says about the clock: the target is one of the
listed frequencies, and it is part of what `cpupower` reports then. The report need not be
the target, since a larger number can contain its digits.
-/

namespace PMKVLab.Runner

open PMKVLab.Library

-----------------------------------------------------------------------------------------
-- Integers in texts
-----------------------------------------------------------------------------------------

/-- The values that `int()` may accept, numbers and texts. Objects of other classes have no
`__int__` in an environment, whose values come from texts and from JSON.
-/
def readable : Py → Bool
  | .bool _ | .int _ | .float _ | .str _ => true
  | _ => false

/-- A text in which some digit is followed by another character. -/
def Interrupted (digit : Char → Option Nat) (text : List Char) : Prop :=
  ∃ front place character back, text = front ++ place :: character :: back
    ∧ (digit place).isSome ∧ digit character = none

/-- What `int()`, `str()` and `\d` of the language do, with the decimal value that Unicode
gives to a character.
-/
structure ReadsIntegers (digit : Char → Option Nat) (interpreter : Interpreter) : Prop where
  decimal : ∀ character, interpreter.decimal character = (digit character).isSome
  below : ∀ character place, digit character = some place → place < 10
  ascii : ∀ character, character.isDigit → digit character = some (character.toNat - 48)
  /-- The digits of a text are read in order; white space, a sign and underscores are not
  digits. -/
  text : ∀ s n, interpreter.toInt (.str s) = .ok n → n.natAbs = number digit s.toList
  unsigned : ∀ s n, interpreter.toInt (.str s) = .ok n
    → (∀ character ∈ s.toList, (digit character).isSome) → 0 ≤ n
  int : ∀ value n, interpreter.toInt (.int value) = .ok n → n = value
  bool : ∀ value n, interpreter.toInt (.bool value) = .ok n → n = if value then 1 else 0
  /-- The `repr` of a finite float has a digit before its point or its exponent. -/
  float : ∀ text n, interpreter.toInt (.float text) = .ok n → Interrupted digit text.toList
  other : ∀ value n, interpreter.toInt value = .ok n → readable value
  strText : ∀ s, interpreter.str (.str s) = s
  strInt : ∀ value, interpreter.str (.int value) = toString value
  strFloat : ∀ text, interpreter.str (.float text) = text

/-- A text shows a number, as far as a report around it can tell: it spells it, or is no
single number. Zero is left alone.
-/
def Shows (digit : Char → Option Nat) (text : List Char) (t : Nat) : Prop :=
  t = 0 ∨ number digit text = t ∨ Interrupted digit text

section Reports

variable {digit : Char → Option Nat}

/-- Numbers on both sides of an interruption. -/
theorem Interrupted.numbers_ne {text : List Char} (interrupted : Interrupted digit text)
    {before after : List Char} {last : Char} (isDigit : (digit last).isSome) (inside : last ∈ after)
    (value : Nat)
    : numbers digit (before ++ text ++ after) ≠ [value] := by
  obtain ⟨front, place, character, back, rfl, digits, separates⟩ := interrupted
  have apart : before ++ (front ++ place :: character :: back) ++ after
      = (before ++ front ++ [place]) ++ character :: (back ++ after) := by
    simp
  rw [apart, numbers_append_cons _ _ separates]
  intro single
  have left : numbers digit (before ++ front ++ [place]) ≠ [] :=
    numbers_ne_nil (by simp) digits
  have right : numbers digit (back ++ after) ≠ [] :=
    numbers_ne_nil (List.mem_append_right back inside) isDigit
  have lengths := congrArg List.length single
  rw [List.length_append, List.length_singleton] at lengths
  have leftSome := List.length_pos_of_ne_nil left
  have rightSome := List.length_pos_of_ne_nil right
  omega

/-- Three zeros turn MHz into kHz. -/
theorem number_append_zeros (zero : digit '0' = some 0) (text : List Char)
    : number digit (text ++ ['0', '0', '0']) = 1000 * number digit text := by
  have zeros : number digit ['0', '0', '0'] = 0 := by simp [number, zero]
  have count : digitCount digit ['0', '0', '0'] = 3 := by simp [digitCount, zero]
  rw [number_append, zeros, count]
  omega

/-- A report that contains the target in kHz reports the target exactly when it reports one
number, with as many digits.
-/
theorem Shows.reported_iff (below : ∀ character place, digit character = some place → place < 10)
    (zero : digit '0' = some 0) {text : List Char} {t : Nat} (shown : Shows digit text t)
    (before after : List Char)
    : numbers digit (before ++ (text ++ ['0', '0', '0']) ++ after) = [1000 * t]
      ↔ ∃ value, numbers digit (before ++ (text ++ ['0', '0', '0']) ++ after) = [value]
        ∧ (Nat.digits 10 value).length = (Nat.digits 10 (1000 * t)).length := by
  constructor
  · intro single
    exact ⟨_, single, rfl⟩
  · rintro ⟨value, single, same⟩
    rcases Nat.eq_zero_or_pos t with rfl | positive
    · rw [Nat.mul_zero, Nat.digits_zero, List.length_nil, List.length_eq_zero_iff,
        Nat.digits_eq_nil_iff_eq_zero] at same
      rw [single, same]
    · rcases shown with rfl | spelled | interrupted
      · cases positive
      · have part : number digit (text ++ ['0', '0', '0']) = 1000 * t := by
          rw [number_append_zeros zero, spelled]
        have whole := number_of_numbers single
        rw [whole, ← part] at same
        rw [single, whole, number_eq_of_length_digits below (by omega) same, part]
      · have apart : before ++ (text ++ ['0', '0', '0']) ++ after
            = before ++ text ++ (['0', '0', '0'] ++ after) := by
          simp
        rw [apart] at single
        have isDigit : (digit '0').isSome := by rw [zero]; rfl
        exact absurd single (interrupted.numbers_ne isDigit (by simp) value)

end Reports

-----------------------------------------------------------------------------------------
-- The listed frequencies
-----------------------------------------------------------------------------------------

/-- The digits of a match are digits. -/
theorem searchRatio_decimal {decimal : Char → Bool} {text : List Char}
    {groups : List Char × List Char} (found : searchRatio decimal text = some groups)
    : ∀ character ∈ groups.1, decimal character = true := by
  induction text with
  | nil => cases found
  | cons character rest ih =>
      unfold searchRatio at found
      split at found
      · next first digits later run _ =>
        split at found
        · exact ih found
        · cases found
          intro other member
          rw [← run] at member
          exact List.mem_takeWhile_imp member
      · exact ih found

namespace Submission

variable {interpreter : Interpreter} {commands : Commands}

/-- A frequency in MHz that a field of the list stands for, and that is kept. -/
structure Parsed (interpreter : Interpreter) (field : String) (f : Int) : Prop where
  read : ∃ groups n, searchRatio interpreter.decimal field.toList = some groups
    ∧ interpreter.toInt (.str (String.ofList groups.1)) = .ok n ∧ thousandth n = .ok f
  round : f % 10 = 0

theorem parseFrequency_ok {frequencies after : List Int} {field : String}
    (parsed : parseFrequency interpreter frequencies field = .ok after)
    : after = frequencies ∨ ∃ f, after = frequencies ++ [f] ∧ Parsed interpreter field f := by
  unfold parseFrequency at parsed
  split at parsed
  · cases parsed
  · next groups found =>
    obtain ⟨n, read, rest⟩ := except_bind_eq_ok.mp parsed
    obtain ⟨f, divided, kept⟩ := except_bind_eq_ok.mp rest
    cases kept
    split
    · next round => exact .inr ⟨f, rfl, ⟨groups, n, found, read, divided⟩, round⟩
    · exact .inl rfl

/-- Every frequency that the loop collects stands for a field, by induction on the fields. -/
theorem parsed_of_mem {fields : List String} {start frequencies : List Int}
    (collected : fields.foldlM (parseFrequency interpreter) start = .ok frequencies)
    {f : Int} (member : f ∈ frequencies)
    : f ∈ start ∨ ∃ field ∈ fields, Parsed interpreter field f := by
  induction fields generalizing start with
  | nil =>
      cases collected
      exact .inl member
  | cons field rest ih =>
      rw [List.foldlM_cons] at collected
      obtain ⟨middle, parsed, later⟩ := except_bind_eq_ok.mp collected
      rcases ih later with earlier | ⟨other, inside, stands⟩
      · rcases parseFrequency_ok parsed with rfl | ⟨g, rfl, stands⟩
        · exact .inl earlier
        · rcases List.mem_append.mp earlier with old | new
          · exact .inl old
          · rw [List.mem_singleton.mp new]
            exact .inr ⟨field, List.mem_cons_self, stands⟩
      · exact .inr ⟨other, List.mem_cons_of_mem field inside, stands⟩

theorem rethrow_eq_ok {Value : Type} {message : String} {outcome : Except Raised Value}
    {value : Value} (ended : rethrow message outcome = .ok value)
    : outcome = .ok value := by
  unfold rethrow at ended
  split at ended
  · split at ended <;> cases ended
  · exact ended

theorem line_eq_ok {index : Nat} {o : List String} {text : String}
    (found : line index o = .ok text)
    : o[index]? = some text := by
  unfold line at found
  split at found
  · next here =>
    cases found
    exact here
  · cases found

/-- The fields of the frequency list: the second line of the first query. -/
def Lists (commands : Commands) (fields : List String) : Prop :=
  ∃ printed second, commands.checkOutput ["cpupower", "frequency-info", "-s"] = .ok printed
    ∧ (split "\n" printed)[1]? = some second ∧ fields = split ", " second

/-- The second line of the last query. -/
def Reports (commands : Commands) (reported : String) : Prop :=
  ∃ printed, commands.checkOutput ["/usr/bin/cpupower", "frequency-info", "-w"] = .ok printed
    ∧ (split "\n" printed)[1]? = some reported

theorem availableFrequencies_ok {frequencies : List Int}
    (listed : availableFrequencies interpreter commands = .ok frequencies)
    : ∃ fields, Lists commands fields
      ∧ ∀ f ∈ frequencies, ∃ field ∈ fields, Parsed interpreter field f := by
  unfold availableFrequencies at listed
  obtain ⟨printed, called, listed⟩ := except_bind_eq_ok.mp listed
  obtain ⟨head, _, listed⟩ := except_bind_eq_ok.mp listed
  obtain ⟨analyzed, _, listed⟩ := except_bind_eq_ok.mp listed
  dsimp only at listed
  split at listed
  · cases listed
  · obtain ⟨second, found, collected⟩ := except_bind_eq_ok.mp listed
    refine ⟨_, ⟨printed, second, rethrow_eq_ok called, line_eq_ok found, rfl⟩, ?_⟩
    intro f member
    rcases parsed_of_mem collected member with none | stands
    · cases none
    · exact stands

/-- Frequencies that are read from digits are not negative. -/
theorem Parsed.nonneg {digit : Char → Option Nat} (reads : ReadsIntegers digit interpreter)
    {field : String} {f : Int} (parsed : Parsed interpreter field f)
    : 0 ≤ f := by
  obtain ⟨groups, n, found, read, divided⟩ := parsed.read
  have digits : ∀ character ∈ (String.ofList groups.1).toList, (digit character).isSome := by
    intro character member
    rw [String.toList_ofList] at member
    rw [← reads.decimal]
    exact searchRatio_decimal found character member
  have unsigned := reads.unsigned _ n read digits
  unfold thousandth at divided
  split at divided
  · cases divided
    exact Int.mul_nonneg (Int.sign_nonneg_iff.mpr unsigned) (Int.natCast_nonneg _)
  · cases divided

-----------------------------------------------------------------------------------------
-- The target
-----------------------------------------------------------------------------------------

/-- The target in MHz: what `int()` makes of the entry `MHz`, or the largest listed one. -/
inductive Targets (interpreter : Interpreter) (entries : List (String × Py))
    (frequencies : List Int) : Int → Prop
  | wanted {value : Py} {target : Int} (named : entries.lookup "MHz" = some value)
    (read : interpreter.toInt value = .ok target)
    : Targets interpreter entries frequencies target
  | fastest {target : Int} (unnamed : entries.lookup "MHz" = none)
    (largest : maxFrequency frequencies = .ok target)
    : Targets interpreter entries frequencies target

/-- Only the entry `MHz` matters. -/
theorem Targets.of_lookup {entries others : List (String × Py)} {frequencies : List Int}
    {target : Int} (targets : Targets interpreter others frequencies target)
    (same : others.lookup "MHz" = entries.lookup "MHz")
    : Targets interpreter entries frequencies target := by
  cases targets with
  | wanted named read => exact .wanted (same.symm.trans named) read
  | fastest unnamed largest => exact .fastest (same.symm.trans unnamed) largest

theorem foldl_max_mem (rest : List Int) (first : Int)
    : rest.foldl max first ∈ first :: rest := by
  induction rest generalizing first with
  | nil => exact List.mem_cons_self
  | cons next rest ih =>
      rw [List.foldl_cons]
      rcases List.mem_cons.mp (ih (max first next)) with here | later
      · rw [here]
        rcases max_choice first next with same | same
        · rw [same]
          exact List.mem_cons_self
        · rw [same]
          exact List.mem_cons_of_mem first List.mem_cons_self
      · exact List.mem_cons_of_mem first (List.mem_cons_of_mem next later)

theorem maxFrequency_mem {frequencies : List Int} {target : Int}
    (largest : maxFrequency frequencies = .ok target)
    : target ∈ frequencies := by
  cases frequencies with
  | nil => cases largest
  | cons first rest =>
      cases largest
      exact foldl_max_mem rest first

/-- The text of a number that is not negative spells it. -/
theorem shows_toString {digit : Char → Option Nat} (reads : ReadsIntegers digit interpreter)
    (t : Nat)
    : Shows digit (toString (t : Int)).toList t :=
  .inr (.inl (number_toString reads.ascii t))

/-- A value that `int()` turns into a multiple of ten shows it, by the type of the value. -/
theorem shows_str {digit : Char → Option Nat} (reads : ReadsIntegers digit interpreter)
    {value : Py} {t : Nat} (read : interpreter.toInt value = .ok (t : Int))
    (round : (t : Int) % 10 = 0)
    : Shows digit (interpreter.str value).toList t := by
  have known := reads.other value t read
  cases value with
  | str s =>
      rw [reads.strText]
      exact .inr (.inl (reads.text s t read).symm)
  | int value =>
      rw [reads.strInt, ← reads.int value t read]
      exact shows_toString reads t
  | float text =>
      rw [reads.strFloat]
      exact .inr (.inr (reads.float text t read))
  | bool value =>
      have truth := reads.bool value t read
      refine .inl ?_
      split at truth
      · omega
      · omega
  | none => cases known
  | list items => cases known
  | dict entries => cases known
  | function identity => cases known
  | object identity => cases known

/-- What `targetMHz` returns, with and without an entry `MHz`. -/
theorem targetMHz_cases {entries : List (String × Py)} {frequencies : List Int} {text : String}
    (chosen : targetMHz interpreter (.dict entries) frequencies = .ok text)
    : (∃ value target, entries.lookup "MHz" = some value
        ∧ interpreter.toInt value = .ok target ∧ target ∈ frequencies
        ∧ text = interpreter.str value)
      ∨ ∃ target, entries.lookup "MHz" = none ∧ maxFrequency frequencies = .ok target
        ∧ text = toString target := by
  unfold targetMHz at chosen
  obtain ⟨named, present, chosen⟩ := except_bind_eq_ok.mp chosen
  cases present
  split at chosen
  · obtain ⟨value, found, chosen⟩ := except_bind_eq_ok.mp chosen
    obtain ⟨target, read, chosen⟩ := except_bind_eq_ok.mp chosen
    dsimp only at chosen
    split at chosen
    · cases chosen
    · next listed =>
      cases chosen
      refine .inl ⟨value, target, ?_, read, of_not_not listed, rfl⟩
      simp only [Py.getItem] at found
      split at found
      · next here =>
        cases found
        exact here
      · cases found
  · next unnamed =>
    obtain ⟨target, largest, printed⟩ := except_bind_eq_ok.mp chosen
    cases printed
    refine .inr ⟨target, ?_, largest, rfl⟩
    by_contra found
    have named := lookup_isSome_iff.mp (Option.isSome_iff_ne_none.mpr found)
    obtain ⟨entry, member, same⟩ := List.mem_map.mp named
    exact unnamed (List.any_eq_true.mpr ⟨entry, member, beq_iff_eq.mpr same⟩)

/-- The text that `targetMHz` returns shows a listed frequency, the target. -/
theorem targetMHz_ok {digit : Char → Option Nat} (reads : ReadsIntegers digit interpreter)
    {entries : List (String × Py)} {frequencies : List Int} {text : String}
    (nonneg : ∀ f ∈ frequencies, 0 ≤ f) (round : ∀ f ∈ frequencies, f % 10 = 0)
    (chosen : targetMHz interpreter (.dict entries) frequencies = .ok text)
    : ∃ t : Nat, Targets interpreter entries frequencies t ∧ (t : Int) ∈ frequencies
      ∧ Shows digit text.toList t := by
  rcases targetMHz_cases chosen with
    ⟨value, target, named, read, member, rfl⟩ | ⟨target, unnamed, largest, rfl⟩
  · obtain ⟨t, rfl⟩ := Int.eq_ofNat_of_zero_le (nonneg target member)
    exact ⟨t, .wanted named read, member, shows_str reads read (round _ member)⟩
  · have member := maxFrequency_mem largest
    obtain ⟨t, rfl⟩ := Int.eq_ofNat_of_zero_le (nonneg target member)
    exact ⟨t, .fastest unnamed largest, member, shows_toString reads t⟩

/-- A normal end of `setFrequency`: the report contains the target in kHz. -/
theorem setFrequency_ok {target : String} (ended : setFrequency commands target = .ok ())
    : ∃ reported before after, Reports commands reported
      ∧ reported.toList = before ++ (target.toList ++ ['0', '0', '0']) ++ after := by
  unfold setFrequency at ended
  obtain ⟨_, _, ended⟩ := except_bind_eq_ok.mp ended
  obtain ⟨printed, called, ended⟩ := except_bind_eq_ok.mp ended
  obtain ⟨reported, found, ended⟩ := except_bind_eq_ok.mp ended
  obtain ⟨inside, tested, ended⟩ := except_bind_eq_ok.mp ended
  cases tested
  split at ended
  · cases ended
  · next contained =>
    rw [Bool.not_eq_true, Bool.not_eq_false', List.any_eq_true] at contained
    obtain ⟨tail, suffix, begins⟩ := contained
    obtain ⟨before, parts⟩ := (List.mem_tails _ _).mp suffix
    obtain ⟨after, rest⟩ := List.isPrefixOf_iff_prefix.mp begins
    refine ⟨reported, before, after, ⟨printed, rethrow_eq_ok called, line_eq_ok found⟩, ?_⟩
    rw [← parts, ← rest, String.toList_append, List.append_assoc before]
    rfl

-----------------------------------------------------------------------------------------
-- The whole function
-----------------------------------------------------------------------------------------

/-- The steps of a run of `apply_options` that returns normally where `cpupower` is there. -/
theorem applyOptions_ok {sub after : Submission}
    (available : commands.call ["which", "cpupower"] = .ok 0)
    (returned : (applyOptions interpreter commands).run sub = (.ok (), after))
    : ∃ entries frequencies target, sub.env = .dict entries
      ∧ availableFrequencies interpreter commands = .ok frequencies
      ∧ targetMHz interpreter
          (.dict (setItem "ARCHLAB_AVAILABLE_CPU_FREQUENCIES"
            (.str (" ".intercalate (frequencies.map toString))) entries)) frequencies
        = .ok target
      ∧ setFrequency commands target = .ok () := by
  unfold applyOptions at returned
  obtain ⟨code, called, returned⟩ := Program.run_lift_bind_eq_ok.mp returned
  cases available.symm.trans called
  obtain ⟨frequencies, listed, returned⟩ := Program.run_lift_bind_eq_ok.mp returned
  obtain ⟨env, _, got, returned⟩ := Program.run_bind_eq_ok.mp returned
  cases got
  dsimp only at returned
  split at returned
  · next entries isDict =>
    obtain ⟨_, middle, modified, returned⟩ := Program.run_bind_eq_ok.mp returned
    cases modified
    obtain ⟨env, _, got, returned⟩ := Program.run_bind_eq_ok.mp returned
    cases got
    obtain ⟨target, chosen, returned⟩ := Program.run_lift_bind_eq_ok.mp returned
    exact ⟨entries, frequencies, target, isDict, listed, chosen, congrArg Prod.fst returned⟩
  · obtain ⟨_, _, raised, _⟩ := Program.run_bind_eq_ok.mp returned
    cases raised

/-- The other way round: a run whose steps succeed returns normally. -/
theorem applyOptions_run {sub : Submission} {entries : List (String × Py)}
    {frequencies : List Int} {target : String}
    (available : commands.call ["which", "cpupower"] = .ok 0) (isDict : sub.env = .dict entries)
    (listed : availableFrequencies interpreter commands = .ok frequencies)
    (chosen : targetMHz interpreter
        (.dict (setItem "ARCHLAB_AVAILABLE_CPU_FREQUENCIES"
          (.str (" ".intercalate (frequencies.map toString))) entries)) frequencies
      = .ok target)
    (ended : setFrequency commands target = .ok ())
    : (applyOptions interpreter commands).run sub
      = (.ok (), { sub with
          env := .dict (setItem "ARCHLAB_AVAILABLE_CPU_FREQUENCIES"
            (.str (" ".intercalate (frequencies.map toString))) entries) }) := by
  unfold applyOptions
  refine Program.run_lift_bind_eq_ok.mpr ⟨0, available, ?_⟩
  rw [if_neg (fun nonzero => nonzero rfl)]
  refine Program.run_lift_bind_eq_ok.mpr ⟨frequencies, listed, ?_⟩
  refine Program.run_bind_eq_ok.mpr ⟨_, sub, Program.run_gets sub _, ?_⟩
  rw [isDict]
  refine Program.run_bind_eq_ok.mpr ⟨_, _, rfl, ?_⟩
  refine Program.run_bind_eq_ok.mpr ⟨_, _, rfl, ?_⟩
  refine Program.run_lift_bind_eq_ok.mpr ⟨target, chosen, ?_⟩
  rw [ended]
  rfl

/-- When `apply_options` returns normally, the target is a listed multiple of 10 MHz, and the
number that the last query reports is the target in kHz exactly when it is the only number of
its line and has as many digits.
-/
theorem applyOptions_verified_iff {digit : Char → Option Nat}
    (reads : ReadsIntegers digit interpreter) {sub after : Submission}
    (available : commands.call ["which", "cpupower"] = .ok 0)
    (returned : (applyOptions interpreter commands).run sub = (.ok (), after))
    : ∃ (entries : List (String × Py)) (fields : List String) (frequencies : List Int)
        (reported : String) (t : Nat),
        sub.env = .dict entries ∧ Lists commands fields ∧ Reports commands reported
        ∧ availableFrequencies interpreter commands = .ok frequencies
        ∧ Targets interpreter entries frequencies t
        ∧ ((t : Int) ∈ frequencies ∧ ∃ field ∈ fields, Parsed interpreter field t)
        ∧ (numbers digit reported.toList = [1000 * t]
          ↔ ∃ value, numbers digit reported.toList = [value]
            ∧ (Nat.digits 10 value).length = (Nat.digits 10 (1000 * t)).length) := by
  obtain ⟨entries, frequencies, text, isDict, listed, chosen, ended⟩ :=
    applyOptions_ok available returned
  obtain ⟨fields, lists, stand⟩ := availableFrequencies_ok listed
  obtain ⟨reported, before, behind, reports, contains⟩ := setFrequency_ok ended
  have nonneg : ∀ f ∈ frequencies, 0 ≤ f := by
    intro f member
    obtain ⟨_, _, parsed⟩ := stand f member
    exact parsed.nonneg reads
  have round : ∀ f ∈ frequencies, f % 10 = 0 := by
    intro f member
    obtain ⟨_, _, parsed⟩ := stand f member
    exact parsed.round
  obtain ⟨t, targets, member, shown⟩ := targetMHz_ok reads nonneg round chosen
  have zero : digit '0' = some 0 := reads.ascii '0' (by decide)
  refine ⟨entries, fields, frequencies, reported, t, isDict, lists, reports, listed, ?_,
    ⟨member, stand t member⟩, ?_⟩
  · exact targets.of_lookup (lookup_setItem_of_ne (by decide) _ _)
  · rw [contains]
    exact shown.reported_iff reads.below zero before behind

-----------------------------------------------------------------------------------------
-- A report that only contains the target
-----------------------------------------------------------------------------------------

/-- The value of an ASCII digit. -/
def asciiDigit (character : Char) : Option Nat :=
  if character.isDigit then some (character.toNat - 48) else none

theorem asciiDigit_eq (character : Char) (isDigit : character.isDigit)
    : asciiDigit character = some (character.toNat - 48) :=
  if_pos isDigit

/-- An interpreter whose texts hold ASCII digits, and nothing else where a number is read. -/
def asciiInterpreter : Interpreter where
  toFloat _ := none
  eval _ scope := (.ok .none, scope.files)
  str
    | .str s => s
    | .int value => toString value
    | .float text => text
    | value => value.typeName
  repr := Py.typeName
  toInt
    | .str s =>
        match readDecimal s.toList with
        | some n => .ok n
        | none => .error ⟨.valueError, "invalid literal for int() with base 10"⟩
    | .int value => .ok value
    | .bool value => .ok (if value then 1 else 0)
    | _ => .error ⟨.typeError, "int() argument must be a string or a number"⟩
  decimal := Char.isDigit

theorem asciiInterpreter_text {s : String} {n : Int}
    (read : asciiInterpreter.toInt (.str s) = .ok n)
    : n = number asciiDigit s.toList := by
  simp only [asciiInterpreter] at read
  split at read
  · next value decimal =>
    cases read
    unfold readDecimal at decimal
    split at decimal
    · next digits =>
      cases decimal
      rw [number_of_ascii asciiDigit_eq (List.all_eq_true.mp digits.2)]
    · cases decimal
  · cases read

theorem asciiInterpreter_reads : ReadsIntegers asciiDigit asciiInterpreter where
  decimal character := by
    change character.isDigit = _
    unfold asciiDigit
    cases character.isDigit <;> rfl
  below character place found := by
    unfold asciiDigit at found
    split at found
    · next isDigit =>
      cases found
      rw [Char.isDigit, Bool.and_eq_true, decide_eq_true_eq, decide_eq_true_eq] at isDigit
      have bound : character.toNat ≤ 57 := isDigit.2
      omega
    · cases found
  ascii := asciiDigit_eq
  text s n read := by
    rw [asciiInterpreter_text read]
    rfl
  unsigned s n read _ := by
    rw [asciiInterpreter_text read]
    exact Int.natCast_nonneg _
  int value n read := (Except.ok.inj read).symm
  bool value n read := (Except.ok.inj read).symm
  float text n read := by cases read
  other value n read := by
    cases value <;> first | rfl | cases read
  strText _ := rfl
  strInt _ := rfl
  strFloat _ := rfl

/-- A processor with two frequencies, and what the last query prints. -/
def twoFrequencies (printed : String) : Commands where
  call _ := .ok 0
  checkOutput command :=
    if command = ["cpupower", "frequency-info", "-s"] then
      .ok "analyzing CPU 0:\n800000:5, 1800000:3\n"
    else .ok printed

/-- A submission that asks for 800 MHz. -/
def slowSubmission : Submission where
  labSpec _ := .none
  files := .dict []
  env := .dict [("MHz", .str "800")]
  options := .dict []

theorem twoFrequencies_listed (printed : String)
    : availableFrequencies asciiInterpreter (twoFrequencies printed) = .ok [800, 1800] := by
  have query : (twoFrequencies printed).checkOutput ["cpupower", "frequency-info", "-s"]
      = .ok "analyzing CPU 0:\n800000:5, 1800000:3\n" :=
    rfl
  unfold availableFrequencies
  rw [query]
  decide +kernel

/-- The submission's run, when the report contains its target. -/
theorem slowSubmission_returns {printed : String}
    (ended : setFrequency (twoFrequencies printed) "800" = .ok ())
    : ∃ after, (applyOptions asciiInterpreter (twoFrequencies printed)).run slowSubmission
        = (.ok (), after) :=
  ⟨_, applyOptions_run rfl rfl (twoFrequencies_listed printed) (by decide +kernel) ended⟩

/-- The processor runs at 1800 MHz instead of the 800 MHz that were asked for, and
`apply_options` returns normally: the digits of 800000 are part of 1800000.
-/
theorem applyOptions_accepts_larger_clock
    : (∃ after,
        (applyOptions asciiInterpreter (twoFrequencies "analyzing CPU 0:\n1800000\n")).run
          slowSubmission = (.ok (), after))
      ∧ Targets asciiInterpreter [("MHz", .str "800")] [800, 1800] 800
      ∧ Reports (twoFrequencies "analyzing CPU 0:\n1800000\n") "1800000"
      ∧ numbers asciiDigit "1800000".toList = [1800000]
      ∧ 1800000 ≠ 1000 * 800 := by
  refine ⟨slowSubmission_returns (by decide +kernel), .wanted rfl (by decide +kernel),
    ⟨_, rfl, by decide +kernel⟩, by decide +kernel, by decide⟩

/-- The report of the clock that was asked for. -/
theorem applyOptions_verified_slow
    : ∃ reported t, Reports (twoFrequencies "analyzing CPU 0:\n800000\n") reported
        ∧ Targets asciiInterpreter [("MHz", .str "800")] [800, 1800] (t : Nat)
        ∧ numbers asciiDigit reported.toList = [1000 * t] := by
  obtain ⟨after, returned⟩ :=
    @slowSubmission_returns "analyzing CPU 0:\n800000\n" (by decide +kernel)
  obtain ⟨entries, _, frequencies, reported, t, isDict, _, reports, listed, targets, _, same⟩ :=
    applyOptions_verified_iff asciiInterpreter_reads rfl returned
  cases Py.dict.inj isDict
  cases Except.ok.inj ((twoFrequencies_listed _).symm.trans listed)
  have second : reported = "800000" := by
    obtain ⟨printed, query, second⟩ := reports
    cases Except.ok.inj query
    exact Option.some.inj (second.symm.trans (by decide +kernel))
  have target : t = 800 := by
    cases targets with
    | wanted named read =>
        cases Option.some.inj named
        have value : asciiInterpreter.toInt (.str "800") = .ok 800 := by decide +kernel
        exact Int.ofNat.inj (Except.ok.inj (read.symm.trans value))
    | fastest unnamed largest => cases unnamed
  refine ⟨reported, t, reports, targets, same.mpr ⟨800000, ?_, ?_⟩⟩
  · rw [second]
    decide +kernel
  · rw [target]

end Submission

end PMKVLab.Runner
