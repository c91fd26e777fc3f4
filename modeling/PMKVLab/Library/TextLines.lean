import PMKVLab.Library.Csv
import PMKVLab.Library.Words

/-! Reading the lines of a text file: `\r\n` and `\r` become line feeds, and each line is
cleaned before the blank ones are dropped.
-/

namespace PMKVLab.Library

/-- What text mode makes of the line ends of a file. -/
def universalNewlines : List Char → List Char
  | [] => []
  | '\r' :: '\n' :: rest => '\n' :: universalNewlines rest
  | '\r' :: rest => '\n' :: universalNewlines rest
  | character :: rest => character :: universalNewlines rest

/-- `file.readlines()`. -/
def readlines (text : List Char) : List (List Char) :=
  Csv.lines (universalNewlines text)

/-- A text without its line feeds. -/
def pieces (text : List Char) : List (List Char) :=
  text.splitOnP fun character => character == '\n'

/-- The lines of a text that are not blank after cleaning, in their order. -/
def contents (clean : List Char → List Char) (text : List Char) : List (List Char) :=
  ((pieces (universalNewlines text)).map clean).filter fun line => !line.isEmpty

-----------------------------------------------------------------------------------------
-- Line ends
-----------------------------------------------------------------------------------------

/-- A line feed after a text is a line end of its own, or part of the one before it; by the
recursion of the translation.
-/
theorem universalNewlines_append (before after : List Char)
    : universalNewlines (before ++ '\n' :: after)
        = universalNewlines before ++ '\n' :: universalNewlines after
      ∨ ∃ body, universalNewlines before = body ++ ['\n']
        ∧ universalNewlines (before ++ '\n' :: after)
          = universalNewlines before ++ universalNewlines after := by
  fun_induction universalNewlines before with
  | case1 => exact .inl rfl
  | case2 rest ih =>
      rcases ih with apart | ⟨body, ended, joined⟩
      · exact .inl (by simp [universalNewlines, apart])
      · exact .inr ⟨'\n' :: body, by simp [ended], by simp [universalNewlines, joined]⟩
  | case3 rest noLineFeed ih =>
      cases rest with
      | nil => exact .inr ⟨[], rfl, rfl⟩
      | cons first others =>
          have next : universalNewlines ('\r' :: (first :: others ++ '\n' :: after))
              = '\n' :: universalNewlines (first :: others ++ '\n' :: after) := by
            refine universalNewlines.eq_3 _ fun later same => ?_
            exact noLineFeed others (by rw [(List.cons.inj same).1])
          rcases ih with apart | ⟨body, ended, joined⟩
          · exact .inl (by rw [List.cons_append, next, apart, List.cons_append])
          · exact .inr ⟨'\n' :: body, by rw [ended, List.cons_append],
              by rw [List.cons_append, next, joined, List.cons_append]⟩
  | case4 character rest _ noReturn ih =>
      have next : universalNewlines (character :: (rest ++ '\n' :: after))
          = character :: universalNewlines (rest ++ '\n' :: after) :=
        universalNewlines.eq_4 _ _ (fun _ same _ => noReturn same) noReturn
      rcases ih with apart | ⟨body, ended, joined⟩
      · exact .inl (by rw [List.cons_append, next, apart, List.cons_append])
      · exact .inr ⟨character :: body, by rw [ended, List.cons_append],
          by rw [List.cons_append, next, joined, List.cons_append]⟩

theorem universalNewlines_of_notMem {text : List Char} (noReturn : '\r' ∉ text)
    : universalNewlines text = text := by
  induction text with
  | nil => rfl
  | cons character rest ih =>
      rw [List.mem_cons, not_or] at noReturn
      have different : character ≠ '\r' := Ne.symm noReturn.1
      rw [universalNewlines.eq_4 _ _ (fun _ same _ => different same) different, ih noReturn.2]

theorem pieces_append_cons (before after : List Char)
    : pieces (before ++ '\n' :: after) = pieces before ++ pieces after :=
  List.splitOnP_append_cons before after (beq_self_eq_true '\n')

theorem pieces_of_line {line : List Char} (whole : '\n' ∉ line) : pieces line = [line] := by
  refine List.splitOnP_eq_singleton fun character member => ?_
  simpa using ne_of_mem_of_not_mem member whole

/-- The last line of a text has no line feed. -/
theorem lines_of_line {line : List Char} (whole : '\n' ∉ line) (filled : line ≠ [])
    : Csv.lines line = [line] := by
  induction line with
  | nil => exact absurd rfl filled
  | cons character rest ih =>
      rw [List.mem_cons, not_or] at whole
      rw [Csv.lines.eq_3 _ _ fun same => whole.1 same.symm]
      cases rest with
      | nil => rfl
      | cons next others => rw [ih whole.2 (List.cons_ne_nil next others)]

section Contents

variable {clean : List Char → List Char}

/-- The contents of two texts with a line feed between them. -/
theorem contents_append_cons (blank : clean [] = []) (before after : List Char)
    : contents clean (before ++ '\n' :: after)
      = contents clean before ++ contents clean after := by
  unfold contents
  rcases universalNewlines_append before after with apart | ⟨body, ended, joined⟩
  · rw [apart, pieces_append_cons, List.map_append, List.filter_append]
  · have split : body ++ ['\n'] ++ universalNewlines after
        = body ++ '\n' :: universalNewlines after := by simp
    have empty : pieces [] = [[]] := rfl
    rw [joined, ended, split, pieces_append_cons, pieces_append_cons body [], empty]
    simp [blank]

/-- A line that is not blank is all the contents. -/
theorem contents_of_line {line : List Char} (noReturn : '\r' ∉ line) (noLineFeed : '\n' ∉ line)
    (filled : clean line ≠ [])
    : contents clean line = [clean line] := by
  rw [contents, universalNewlines_of_notMem noReturn, pieces_of_line noLineFeed]
  simp [filled]

/-- The lines that are read are the contents once the blank ones are dropped, when reading a
line cleans it and drops its line feed; by induction on the length of the text.
-/
theorem filter_readlines {read : List Char → List Char} (blank : clean [] = [])
    (reads : ∀ line, '\n' ∉ line → read line = clean line ∧ read (line ++ ['\n']) = clean line)
    (text : List Char)
    : ((readlines text).map read).filter (fun line => !line.isEmpty) = contents clean text := by
  unfold readlines contents
  generalize universalNewlines text = text
  induction size : text.length using Nat.strong_induction_on generalizing text with
  | _ length ih =>
      by_cases member : '\n' ∈ text
      · obtain ⟨line, rest, rfl, whole⟩ := List.eq_append_cons_of_mem member
        have shorter : rest.length < length := by
          rw [← size, List.length_append, List.length_cons]
          omega
        rw [Csv.lines_append_cons whole, pieces_append_cons, pieces_of_line whole,
          List.map_cons, (reads line whole).2, List.singleton_append, List.map_cons,
          List.filter_cons, List.filter_cons, ih _ shorter rest rfl]
      · by_cases empty : text = []
        · subst empty
          have one : pieces [] = [[]] := rfl
          rw [one]
          simp [Csv.lines, blank]
        · rw [lines_of_line member empty, pieces_of_line member, List.map_singleton,
            List.map_singleton, (reads text member).1]

end Contents

end PMKVLab.Library
