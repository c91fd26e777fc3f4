import Mathlib.Data.Nat.Digits.Lemmas
import PMKVLab.Library.Decimals
import PMKVLab.Library.Words

/-! The numbers that stand in a text: its longest runs of decimal digits, in whatever
alphabet the digits are taken from.
-/

namespace PMKVLab.Library

section Numbers

variable {Symbol : Type} (digit : Symbol → Option Nat)

/-- The number that the digits of a text form, everything else left out. -/
def number (text : List Symbol) : Nat :=
  (text.filterMap digit).foldl (fun value place => 10 * value + place) 0

def digitCount (text : List Symbol) : Nat := (text.filterMap digit).length

/-- The numbers of a text. -/
def numbers (text : List Symbol) : List Nat :=
  (words (fun symbol => (digit symbol).isNone) text).map (number digit)

variable {digit}

/-- Digits appended to a number shift it, by induction on the digits. -/
theorem foldl_digits (places : List Nat) (start : Nat)
    : places.foldl (fun value place => 10 * value + place) start
      = start * 10 ^ places.length + places.foldl (fun value place => 10 * value + place) 0 := by
  induction places generalizing start with
  | nil => simp
  | cons place rest ih =>
      rw [List.foldl_cons, List.foldl_cons, ih, ih (10 * 0 + place), List.length_cons, pow_succ]
      ring

theorem number_append (front back : List Symbol)
    : number digit (front ++ back)
      = number digit front * 10 ^ digitCount digit back + number digit back := by
  rw [number, List.filterMap_append, List.foldl_append, foldl_digits]
  rfl

theorem digitCount_append (front back : List Symbol)
    : digitCount digit (front ++ back) = digitCount digit front + digitCount digit back := by
  rw [digitCount, List.filterMap_append, List.length_append]
  rfl

/-- A number is below the power of ten for its digits. -/
theorem number_lt (below : ∀ symbol place, digit symbol = some place → place < 10)
    (text : List Symbol)
    : number digit text < 10 ^ digitCount digit text := by
  induction text using List.reverseRecOn with
  | nil => exact Nat.one_pos
  | append_singleton front symbol ih =>
      rw [number_append, digitCount_append, pow_add]
      cases found : digit symbol with
      | none => simpa [number, digitCount, found] using ih
      | some place =>
          have small := below symbol place found
          have one : digitCount digit [symbol] = 1 := by simp [digitCount, found]
          have last : number digit [symbol] = place := by simp [number, found]
          rw [one, last, pow_one]
          omega

/-- A text with one number spells that number with all its digits. -/
theorem number_of_numbers {text : List Symbol} {value : Nat}
    (single : numbers digit text = [value])
    : value = number digit text := by
  obtain ⟨word, alone, rfl⟩ := List.map_eq_singleton_iff.mp single
  have whole := @words_flatten Symbol (fun symbol => (digit symbol).isNone) text
  rw [alone, List.flatten_singleton] at whole
  have digits : (text.filter fun symbol => !(digit symbol).isNone).filterMap digit
      = text.filterMap digit := by
    rw [List.filterMap_filter]
    refine List.filterMap_congr fun symbol _ => ?_
    cases digit symbol <;> rfl
  rw [number, number, whole, digits]

/-- A symbol that is no digit separates numbers. -/
theorem numbers_append_cons (front back : List Symbol) {symbol : Symbol}
    (separates : digit symbol = none)
    : numbers digit (front ++ symbol :: back) = numbers digit front ++ numbers digit back := by
  rw [numbers, words_append_cons front back (by rw [separates]; rfl), List.map_append]
  rfl

theorem numbers_ne_nil {text : List Symbol} {symbol : Symbol} (member : symbol ∈ text)
    (isDigit : (digit symbol).isSome)
    : numbers digit text ≠ [] := by
  intro empty
  have whole := @words_flatten Symbol (fun symbol => (digit symbol).isNone) text
  rw [List.map_eq_nil_iff.mp empty, List.flatten_nil] at whole
  have kept : symbol ∈ text.filter fun symbol => !(digit symbol).isNone := by
    rw [List.mem_filter]
    exact ⟨member, by simpa using isDigit⟩
  rw [← whole] at kept
  cases kept

/-- A number that is written around another one and has as many digits is that number:
digits behind it would multiply it, and digits before it that count would add a place.
-/
theorem number_eq_of_length_digits
    (below : ∀ symbol place, digit symbol = some place → place < 10)
    {before part after : List Symbol} (positive : 0 < number digit part)
    (same : (Nat.digits 10 (number digit (before ++ part ++ after))).length
      = (Nat.digits 10 (number digit part)).length)
    : number digit (before ++ part ++ after) = number digit part := by
  have partSmall := number_lt below part
  have afterSmall := number_lt below after
  have fits : number digit (before ++ part ++ after)
      < 10 ^ (Nat.digits 10 (number digit part)).length := by
    rw [← same]
    exact Nat.lt_base_pow_length_digits (by decide)
  have tight : 10 ^ (Nat.digits 10 (number digit part)).length ≤ 10 * number digit part :=
    Nat.base_pow_length_digits_le 10 _ (by decide) (by omega)
  have places : (Nat.digits 10 (number digit part)).length ≤ digitCount digit part :=
    (Nat.digits_length_le_iff (by decide) _).mpr partSmall
  rw [number_append, number_append] at fits ⊢
  have noneBehind : digitCount digit after = 0 := by
    by_contra some
    have shift : 10 ≤ 10 ^ digitCount digit after := Nat.le_self_pow some 10
    have larger : number digit part * 10
        ≤ (number digit before * 10 ^ digitCount digit part + number digit part)
          * 10 ^ digitCount digit after :=
      Nat.mul_le_mul (Nat.le_add_left _ _) shift
    omega
  rw [noneBehind, pow_zero] at afterSmall fits ⊢
  have noneBefore : number digit before = 0 := by
    by_contra some
    have larger : 1 * 10 ^ digitCount digit part
        ≤ number digit before * 10 ^ digitCount digit part :=
      Nat.mul_le_mul_right _ (Nat.pos_of_ne_zero some)
    have power : 10 ^ (Nat.digits 10 (number digit part)).length ≤ 10 ^ digitCount digit part :=
      Nat.pow_le_pow_right (by decide) places
    omega
  rw [noneBefore]
  omega

end Numbers

section Ascii

variable {digit : Char → Option Nat}

/-- A text of ASCII digits is read as usual, when they are among the digits. -/
theorem number_of_ascii
    (ascii : ∀ character, character.isDigit → digit character = some (character.toNat - 48))
    {text : List Char} (digits : ∀ character ∈ text, character.isDigit)
    : number digit text = Nat.ofDigitChars 10 text 0 := by
  have places : text.filterMap digit = text.map fun character => character.toNat - 48 := by
    rw [← List.filterMap_eq_map]
    exact List.filterMap_congr fun character member => ascii character (digits character member)
  rw [number, places, List.foldl_map]
  rfl

/-- The text of a natural number spells it. -/
theorem number_toString
    (ascii : ∀ character, character.isDigit → digit character = some (character.toNat - 48))
    (n : Nat)
    : number digit (toString n).toList = n := by
  rw [number_of_ascii ascii fun _ member => isDigit_of_mem_toString member,
    Nat.toString_eq_ofList_toDigits, String.toList_ofList, Nat.ofDigitChars_ten_toDigits]

end Ascii

end PMKVLab.Library
