import Mathlib.Data.List.Basic

/-! Decimal numerals: the text of a natural number, and reading such a text back. -/

namespace PMKVLab.Library

/-- The number a text of decimal digits stands for. -/
def readDecimal (text : List Char) : Option Nat :=
  if text ≠ [] ∧ text.all Char.isDigit = true then some (Nat.ofDigitChars 10 text 0) else none

/-- The text of a number has digits only. -/
theorem isDigit_of_mem_toString {n : Nat} {digit : Char} (member : digit ∈ (toString n).toList)
    : digit.isDigit = true := by
  rw [Nat.toString_eq_ofList_toDigits, String.toList_ofList] at member
  exact Nat.isDigit_of_mem_toDigits (by decide) (by decide) member

/-- The text of a number reads back as the number. -/
theorem readDecimal_toString (n : Nat) : readDecimal (toString n).toList = some n := by
  have digits : (toString n).toList.all Char.isDigit = true :=
    List.all_eq_true.mpr fun _ member => isDigit_of_mem_toString member
  have nonempty : (toString n).toList ≠ [] := by
    rw [Nat.toString_eq_ofList_toDigits, String.toList_ofList]
    exact Nat.toDigits_ne_nil
  rw [readDecimal, if_pos ⟨nonempty, digits⟩, Nat.toString_eq_ofList_toDigits,
    String.toList_ofList, Nat.ofDigitChars_ten_toDigits]

/-- Different numbers have different texts. -/
theorem toString_injective {n other : Nat} (same : toString n = toString other)
    : n = other := by
  have read := readDecimal_toString n
  rw [same, readDecimal_toString] at read
  exact (Option.some.inj read).symm

end PMKVLab.Library
