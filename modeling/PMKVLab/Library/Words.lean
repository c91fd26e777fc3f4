import Mathlib.Data.List.DropRight

/-! Words of a text: the parts between runs of separators, as `str.strip` and `str.split`
without arguments find them.
-/

namespace PMKVLab.Library

section Words

variable {Symbol : Type} (space : Symbol → Bool)

/-- `text.split()`. -/
def words (text : List Symbol) : List (List Symbol) :=
  (text.splitOnP space).filter fun word => !word.isEmpty

/-- `text.strip()`. -/
def strip (text : List Symbol) : List Symbol :=
  (text.dropWhile space).rdropWhile space

variable {space}

/-- A separator between two texts separates their words. -/
theorem words_append_cons (before after : List Symbol) {separator : Symbol}
    (separates : space separator = true)
    : words space (before ++ separator :: after) = words space before ++ words space after := by
  rw [words, List.splitOnP_append_cons before after separates, List.filter_append]
  rfl

/-- A text without separators is one word. -/
theorem words_of_word {word : List Symbol} (nonempty : word ≠ [])
    (solid : ∀ symbol ∈ word, space symbol = false)
    : words space word = [word] := by
  rw [words, List.splitOnP_eq_singleton solid, List.filter_cons_of_pos, List.filter_nil]
  simpa using nonempty

theorem words_cons {separator : Symbol} (separates : space separator = true)
    (text : List Symbol)
    : words space (separator :: text) = words space text :=
  words_append_cons [] text separates

/-- Leading separators are in no word. -/
theorem words_dropWhile (text : List Symbol)
    : words space (text.dropWhile space) = words space text := by
  induction text with
  | nil => rfl
  | cons symbol rest ih =>
      rw [List.dropWhile_cons]
      split
      · next separates => rw [ih, words_cons separates]
      · rfl

/-- Trailing separators are in no word. -/
theorem words_rdropWhile (text : List Symbol)
    : words space (text.rdropWhile space) = words space text := by
  induction text using List.reverseRecOn with
  | nil => rfl
  | append_singleton rest symbol ih =>
      cases separates : space symbol with
      | true =>
          rw [List.rdropWhile_concat_pos _ _ _ separates, ih,
            words_append_cons rest [] separates]
          simp [words]
      | false => rw [List.rdropWhile_concat_neg _ _ _ (by simp [separates])]

theorem words_strip (text : List Symbol) : words space (strip space text) = words space text := by
  rw [strip, words_rdropWhile, words_dropWhile]

/-- A word and separators behind it. -/
theorem words_word_append {word : List Symbol} (nonempty : word ≠ [])
    (solid : ∀ symbol ∈ word, space symbol = false) {separator : Symbol}
    (separates : space separator = true) (after : List Symbol)
    : words space (word ++ separator :: after) = word :: words space after := by
  rw [words_append_cons word after separates, words_of_word nonempty solid]
  rfl

theorem words_replicate_append {separator : Symbol} (separates : space separator = true)
    (count : Nat) (text : List Symbol)
    : words space (List.replicate count separator ++ text) = words space text := by
  induction count with
  | zero => rfl
  | succ count ih => rw [List.replicate_succ, List.cons_append, words_cons separates, ih]

theorem words_append_replicate {separator : Symbol} (separates : space separator = true)
    (text : List Symbol) (count : Nat)
    : words space (text ++ List.replicate count separator) = words space text := by
  cases count with
  | zero => rw [List.replicate_zero, List.append_nil]
  | succ count =>
      have blank : words space (List.replicate count separator) = [] := by
        simpa [words] using words_replicate_append separates count []
      rw [List.replicate_succ, words_append_cons text _ separates, blank, List.append_nil]

/-- A separator at the end is stripped. -/
theorem strip_append_singleton {separator : Symbol} (separates : space separator = true)
    (text : List Symbol)
    : strip space (text ++ [separator]) = strip space text := by
  rw [strip, strip, List.dropWhile_append]
  split
  · next blank =>
    rw [List.isEmpty_iff.mp blank, List.dropWhile_cons_of_pos separates, List.dropWhile_nil]
  · rw [List.rdropWhile_concat_pos _ _ _ separates]

/-- The words, put together, are the text without its separators. -/
theorem words_flatten (text : List Symbol)
    : (words space text).flatten = text.filter fun symbol => !space symbol := by
  rw [words, List.flatten_filter_not_isEmpty]
  induction text with
  | nil => rfl
  | cons symbol rest ih =>
      rw [List.splitOnP_cons_eq_if_modifyHead, List.filter_cons]
      cases separates : space symbol with
      | true => simpa using ih
      | false =>
          obtain ⟨first, others, parts⟩ :=
            List.exists_cons_of_ne_nil (List.splitOnP_ne_nil space rest)
          rw [parts] at ih ⊢
          simpa using ih

end Words

end PMKVLab.Library
