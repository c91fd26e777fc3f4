import Mathlib.Data.List.TakeWhile
import PMKVLab.Library.Decimals

/-! `sscanf` with literal characters, `%d` and `%c`, and the numerals that `%d` accepts. -/

namespace PMKVLab.Library.Scanning

/-- A directive of a format. -/
inductive Directive
  | literal (symbol : Char)
  | decimal
  | character
deriving DecidableEq, Repr

/-- A conversion that succeeded. -/
inductive Field
  | number (value : Int)
  | symbol (symbol : Char)
deriving DecidableEq, Repr

/-- `isspace` in the "C" locale. -/
def isSpace (symbol : Char) : Bool := symbol ∈ [' ', '\t', '\n', '\x0b', '\x0c', '\r']

/-- Whether a minus sign stands in front, and the text after the sign. -/
def takeSign : List Char → Bool × List Char
  | '-' :: rest => (true, rest)
  | '+' :: rest => (false, rest)
  | text => (false, text)

/-- `%d`: blanks are skipped, a sign is optional, a digit is not. -/
def scanDecimal (text : List Char) : Option (Int × List Char) :=
  let signed := takeSign (text.dropWhile isSpace)
  let digits := signed.2.takeWhile Char.isDigit
  let value : Int := Nat.ofDigitChars 10 digits 0
  if digits = [] then none
  else some (if signed.1 then -value else value, signed.2.dropWhile Char.isDigit)

/-- The conversions of a format, up to the first directive that fails. `sscanf` returns
their number, or `EOF` when there is none and the text has ended.
-/
def scan : List Directive → List Char → List Field
  | .literal symbol :: format, first :: text =>
      if symbol = first then scan format text else []
  | .decimal :: format, text =>
      match scanDecimal text with
      | some (value, rest) => .number value :: scan format rest
      | none => []
  | .character :: format, first :: text => .symbol first :: scan format text
  | _, _ => []

-----------------------------------------------------------------------------------------
-- Numerals
-----------------------------------------------------------------------------------------

/-- The sign of a numeral. -/
inductive Sign
  | absent
  | plus
  | minus
deriving DecidableEq, Repr

def Sign.text : Sign → List Char
  | .absent => []
  | .plus => ['+']
  | .minus => ['-']

/-- What `%d` accepts: blanks, a sign and at least one digit. -/
structure Numeral where
  blanks : List Char
  sign : Sign
  digits : List Char
  blank : ∀ symbol ∈ blanks, isSpace symbol = true
  decimal : ∀ symbol ∈ digits, symbol.isDigit = true
  nonempty : digits ≠ []

namespace Numeral

def text (numeral : Numeral) : List Char :=
  numeral.blanks ++ numeral.sign.text ++ numeral.digits

def value (numeral : Numeral) : Int :=
  if numeral.sign = .minus then -Nat.ofDigitChars 10 numeral.digits 0
  else Nat.ofDigitChars 10 numeral.digits 0

/-- The numeral without blanks for a number. -/
def ofInt (n : Int) : Numeral where
  blanks := []
  sign := if n < 0 then .minus else .absent
  digits := Nat.toDigits 10 n.natAbs
  blank := by simp
  decimal := fun _ member => Nat.isDigit_of_mem_toDigits (by decide) (by decide) member
  nonempty := Nat.toDigits_ne_nil

theorem value_ofInt (n : Int) : (ofInt n).value = n := by
  simp only [value, ofInt, Nat.ofDigitChars_ten_toDigits]
  by_cases negative : n < 0
  · rw [if_pos negative, if_pos rfl]
    omega
  · rw [if_neg negative, if_neg (by decide)]
    omega

end Numeral

/-- A digit is neither a blank nor a sign. -/
theorem not_space_of_isDigit {symbol : Char} (digit : symbol.isDigit = true)
    : isSpace symbol = false ∧ symbol ≠ '-' ∧ symbol ≠ '+' := by
  refine ⟨?_, ?_, ?_⟩
  · rw [isSpace, decide_eq_false_iff_not]
    intro member
    simp only [List.mem_cons, List.not_mem_nil, or_false] at member
    rcases member with rfl | rfl | rfl | rfl | rfl | rfl <;> exact absurd digit (by decide)
  · rintro rfl
    exact absurd digit (by decide)
  · rintro rfl
    exact absurd digit (by decide)

/-- A text whose sign is taken apart. -/
theorem takeSign_eq (text : List Char)
    : ∃ sign : Sign, text = sign.text ++ (takeSign text).2
      ∧ ((takeSign text).1 = true ↔ sign = .minus) := by
  unfold takeSign
  split
  · exact ⟨.minus, rfl, by simp⟩
  · exact ⟨.plus, rfl, by simp⟩
  · exact ⟨.absent, rfl, by simp⟩

/-- The sign of a text that goes on with a digit. -/
theorem takeSign_append (sign : Sign) {digits : List Char}
    (decimal : ∀ symbol ∈ digits, symbol.isDigit = true)
    : takeSign (sign.text ++ digits) = (decide (sign = .minus), digits) := by
  cases sign with
  | plus | minus => rfl
  | absent =>
      cases digits with
      | nil => rfl
      | cons first rest =>
          obtain ⟨-, notMinus, notPlus⟩ :=
            not_space_of_isDigit (decimal first List.mem_cons_self)
          unfold takeSign
          simp only [Sign.text, List.nil_append]
          split
          · next same => exact absurd (List.cons.inj same).1 notMinus
          · next same => exact absurd (List.cons.inj same).1 notPlus
          · rfl

/-- What `%d` reads from a whole numeral. -/
theorem scanDecimal_text (numeral : Numeral)
    : scanDecimal numeral.text = some (numeral.value, []) := by
  have solid : (numeral.sign.text ++ numeral.digits).dropWhile isSpace
      = numeral.sign.text ++ numeral.digits := by
    cases sign : numeral.sign with
    | plus | minus => rfl
    | absent =>
        cases digits : numeral.digits with
        | nil => exact absurd digits numeral.nonempty
        | cons first rest =>
            have digit := numeral.decimal first (by rw [digits]; exact List.mem_cons_self)
            simp [Sign.text, (not_space_of_isDigit digit).1]
  have skipped : numeral.text.dropWhile isSpace = numeral.sign.text ++ numeral.digits := by
    rw [Numeral.text, List.append_assoc, List.dropWhile_append_of_pos numeral.blank, solid]
  have all : numeral.digits.takeWhile Char.isDigit = numeral.digits :=
    List.takeWhile_eq_self_iff.mpr numeral.decimal
  have none : numeral.digits.dropWhile Char.isDigit = [] :=
    List.dropWhile_eq_nil_iff.mpr numeral.decimal
  simp only [scanDecimal, skipped, takeSign_append numeral.sign numeral.decimal, all, none,
    if_neg numeral.nonempty, Numeral.value, decide_eq_true_eq]

/-- Whatever `%d` reads is a numeral. -/
theorem scanDecimal_eq_some {text rest : List Char} {value : Int}
    (scanned : scanDecimal text = some (value, rest))
    : ∃ numeral : Numeral, text = numeral.text ++ rest ∧ value = numeral.value := by
  obtain ⟨sign, split, minus⟩ := takeSign_eq (text.dropWhile isSpace)
  unfold scanDecimal at scanned
  simp only at scanned
  split at scanned
  · cases scanned
  · next nonempty =>
      obtain ⟨sameValue, sameRest⟩ := Prod.mk.inj (Option.some.inj scanned)
      refine ⟨⟨text.takeWhile isSpace, sign, _, fun _ => List.mem_takeWhile_imp,
        fun _ => List.mem_takeWhile_imp, nonempty⟩, ?_, ?_⟩
      · rw [← sameRest]
        simp only [Numeral.text, List.append_assoc, List.takeWhile_append_dropWhile]
        rw [← split, List.takeWhile_append_dropWhile]
      · rw [← sameValue]
        simp only [Numeral.value, minus]

-----------------------------------------------------------------------------------------
-- A name, a number and nothing after it
-----------------------------------------------------------------------------------------

/-- The format of literal characters, `%d` and `%c`. -/
def numberFormat (name : List Char) : List Directive :=
  name.map Directive.literal ++ [.decimal, .character]

/-- The number when `sscanf` with this format returns one: the name and a number have been
read, and no character after them.
-/
def scanNumber (name text : List Char) : Option Int :=
  match scan (numberFormat name) text with
  | [.number value] => some value
  | _ => none

/-- A text that does not start with the name has no conversions, by induction on the name. -/
theorem scan_numberFormat (name text : List Char)
    : scan (numberFormat name) text
      = if name <+: text then scan [.decimal, .character] (text.drop name.length) else [] := by
  induction name generalizing text with
  | nil => simp [numberFormat]
  | cons symbol name ih =>
      cases text with
      | nil => simp [numberFormat, scan]
      | cons first text =>
          have tail : scan (numberFormat (symbol :: name)) (first :: text)
              = if symbol = first then scan (numberFormat name) text else [] :=
            rfl
          rw [tail, ih]
          by_cases same : symbol = first
          · simp [same, List.cons_prefix_cons]
          · simp [same, List.cons_prefix_cons]

/-- One conversion: the name, then a numeral up to the end. -/
theorem scanNumber_eq_some_iff {name text : List Char} {value : Int}
    : scanNumber name text = some value
      ↔ ∃ numeral : Numeral, text = name ++ numeral.text ∧ value = numeral.value := by
  constructor
  · intro scanned
    unfold scanNumber at scanned
    rw [scan_numberFormat] at scanned
    by_cases starts : name <+: text
    · obtain ⟨rest, rfl⟩ := starts
      rw [if_pos (List.prefix_append name rest), List.drop_left] at scanned
      unfold scan at scanned
      cases decimal : scanDecimal rest with
      | none => simp [decimal] at scanned
      | some read =>
          obtain ⟨number, left⟩ := read
          obtain ⟨numeral, whole, same⟩ := scanDecimal_eq_some decimal
          cases left with
          | nil =>
              simp only [decimal, scan, Option.some.injEq] at scanned
              refine ⟨numeral, ?_, scanned.symm.trans same⟩
              rw [whole, List.append_nil]
          | cons junk left => simp [decimal, scan] at scanned
    · simp [starts] at scanned
  · rintro ⟨numeral, rfl, rfl⟩
    simp [scanNumber, scan_numberFormat, scan, scanDecimal_text]

end PMKVLab.Library.Scanning
