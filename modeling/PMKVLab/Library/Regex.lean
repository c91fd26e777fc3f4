import Mathlib.Data.List.Basic

/-! Patterns of the `re` module without groups and alternatives: symbol classes, greedy
repetitions of them, and the two anchors. A backtracking matcher tries the remainders of a
text in a fixed order, and the first one decides where a match ends.
-/

namespace PMKVLab.Library.Regex

/-- An item of a pattern. -/
inductive Item (Symbol : Type)
  /-- One symbol of a class. -/
  | one (accepts : Symbol → Bool)
  /-- `*` behind a class. -/
  | many (accepts : Symbol → Bool)
  /-- `^`. -/
  | start
  /-- `$`: the end of the text, or the line feed in front of it. -/
  | stop

variable {Symbol : Type}

/-- What is left of a text after symbols of a class, the longest run of them first. -/
def runs (accepts : Symbol → Bool) : List Symbol → List (List Symbol)
  | [] => [[]]
  | symbol :: rest =>
      if accepts symbol then runs accepts rest ++ [symbol :: rest] else [symbol :: rest]

theorem mem_runs {accepts : Symbol → Bool} {text left : List Symbol}
    : left ∈ runs accepts text
      ↔ ∃ run, text = run ++ left ∧ ∀ symbol ∈ run, accepts symbol = true := by
  induction text with
  | nil =>
      rw [runs, List.mem_singleton]
      constructor
      · rintro rfl
        exact ⟨[], rfl, by simp⟩
      · rintro ⟨run, split, _⟩
        exact (List.append_eq_nil_iff.mp split.symm).2
  | cons symbol rest ih =>
      constructor
      · intro member
        rw [runs] at member
        split at member
        · next accepted =>
          rcases List.mem_append.mp member with later | here
          · obtain ⟨run, split, all⟩ := ih.mp later
            exact ⟨symbol :: run, by rw [split, List.cons_append],
              List.forall_mem_cons.mpr ⟨accepted, all⟩⟩
          · exact ⟨[], (List.mem_singleton.mp here).symm, by simp⟩
        · exact ⟨[], (List.mem_singleton.mp member).symm, by simp⟩
      · rintro ⟨run, split, all⟩
        rw [runs]
        cases run with
        | nil =>
            rw [List.nil_append] at split
            rw [← split]
            split <;> simp
        | cons first others =>
            obtain ⟨rfl, later⟩ := List.cons.inj split
            rw [List.forall_mem_cons] at all
            rw [if_pos all.1]
            exact List.mem_append_left _ (ih.mpr ⟨others, later, all.2⟩)

/-- The first remainder is the one behind the longest run. -/
theorem runs_eq_cons (accepts : Symbol → Bool) (text : List Symbol)
    : ∃ shorter, runs accepts text = text.dropWhile accepts :: shorter := by
  induction text with
  | nil => exact ⟨[], rfl⟩
  | cons symbol rest ih =>
      obtain ⟨shorter, same⟩ := ih
      rw [runs, List.dropWhile_cons]
      split
      · exact ⟨shorter ++ [symbol :: rest], by rw [same, List.cons_append]⟩
      · exact ⟨[], rfl⟩

variable [DecidableEq Symbol]

/-- What a pattern can leave of a text, in the order in which the matcher finds it;
`atStart` tells whether the text is looked at from its first symbol.
-/
def remainders (lineFeed : Symbol)
    : List (Item Symbol) → (atStart : Bool) → List Symbol → List (List Symbol)
  | [], _, text => [text]
  | .one _ :: _, _, [] => []
  | .one accepts :: items, _, symbol :: rest =>
      if accepts symbol then remainders lineFeed items false rest else []
  | .many accepts :: items, atStart, text =>
      (runs accepts text).flatMap fun rest =>
        remainders lineFeed items (atStart && rest.length == text.length) rest
  | .start :: items, atStart, text =>
      if atStart then remainders lineFeed items atStart text else []
  | .stop :: items, atStart, text =>
      if text = [] ∨ text = [lineFeed] then remainders lineFeed items atStart text else []

/-- `re.match(pattern, text) is not None`. -/
def isMatch (lineFeed : Symbol) (pattern : List (Item Symbol)) (text : List Symbol) : Bool :=
  !(remainders lineFeed pattern true text).isEmpty

/-- `re.sub(pattern, "", text)` for a pattern that matches no empty text; the symbols of a
match that was just found are skipped.
-/
def removeAll (lineFeed : Symbol) (pattern : List (Item Symbol))
    : (atStart : Bool) → Nat → List Symbol → List Symbol
  | _, _, [] => []
  | _, skip + 1, _ :: rest => removeAll lineFeed pattern false skip rest
  | atStart, 0, symbol :: rest =>
      match remainders lineFeed pattern atStart (symbol :: rest) with
      | [] => symbol :: removeAll lineFeed pattern false 0 rest
      | left :: _ => removeAll lineFeed pattern false (rest.length - left.length) rest

variable {lineFeed : Symbol}

/-- `^[...]*$` accepts the texts over the class, and those with one line feed behind them. -/
theorem isMatch_anchored_many (accepts : Symbol → Bool) (text : List Symbol)
    : isMatch lineFeed [.start, .many accepts, .stop] text = true
      ↔ (∀ symbol ∈ text, accepts symbol = true)
        ∨ ∃ body, text = body ++ [lineFeed] ∧ ∀ symbol ∈ body, accepts symbol = true := by
  have ends : isMatch lineFeed [.start, .many accepts, .stop] text = true
      ↔ ∃ left ∈ runs accepts text, left = [] ∨ left = [lineFeed] := by
    simp [isMatch, remainders, List.flatMap_eq_nil_iff, or_iff_not_imp_left]
  rw [ends]
  constructor
  · rintro ⟨left, member, rfl | rfl⟩
    · obtain ⟨run, rfl, all⟩ := mem_runs.mp member
      exact .inl (by simpa using all)
    · obtain ⟨run, rfl, all⟩ := mem_runs.mp member
      exact .inr ⟨run, rfl, all⟩
  · rintro (all | ⟨body, rfl, all⟩)
    · exact ⟨[], mem_runs.mpr ⟨text, by simp, all⟩, .inl rfl⟩
    · exact ⟨[lineFeed], mem_runs.mpr ⟨body, rfl, all⟩, .inr rfl⟩

/-- A mark and the rest of its line: `#.*` for the mark `#`. -/
def toLineEnd (lineFeed mark : Symbol) : List (Item Symbol) :=
  [.one (· == mark), .many (· != lineFeed)]

theorem remainders_toLineEnd (lineFeed mark symbol : Symbol) (atStart : Bool) (rest : List Symbol)
    : ∃ shorter, remainders lineFeed (toLineEnd lineFeed mark) atStart (symbol :: rest)
      = if symbol = mark then rest.dropWhile (· != lineFeed) :: shorter else [] := by
  obtain ⟨shorter, same⟩ := runs_eq_cons (· != lineFeed) rest
  refine ⟨shorter, ?_⟩
  simp [toLineEnd, remainders, same]

/-- Skipping goes on behind the skipped symbols. -/
theorem removeAll_skip (pattern : List (Item Symbol)) (run rest : List Symbol)
    : removeAll lineFeed pattern false run.length (run ++ rest)
      = removeAll lineFeed pattern false 0 rest := by
  induction run with
  | nil => rfl
  | cons symbol others ih => exact ih

/-- Of a line, `#.*` leaves what is in front of the first mark, and its line feed; by
induction on the line.
-/
theorem removeAll_toLineEnd (mark : Symbol) (atStart : Bool) {line : List Symbol}
    (whole : lineFeed ∉ line) {rest : List Symbol} (ends : rest = [] ∨ rest = [lineFeed])
    (apart : lineFeed ≠ mark)
    : removeAll lineFeed (toLineEnd lineFeed mark) atStart 0 (line ++ rest)
      = line.takeWhile (· != mark) ++ rest := by
  have last (atStart : Bool)
      : removeAll lineFeed (toLineEnd lineFeed mark) atStart 0 rest = rest := by
    rcases ends with rfl | rfl
    · rfl
    · obtain ⟨_, same⟩ := remainders_toLineEnd lineFeed mark lineFeed atStart []
      rw [removeAll, same, if_neg apart]
      rfl
  induction line generalizing atStart with
  | nil => exact last atStart
  | cons symbol others ih =>
      rw [List.mem_cons, not_or] at whole
      obtain ⟨shorter, same⟩ :=
        remainders_toLineEnd lineFeed mark symbol atStart (others ++ rest)
      rw [List.cons_append, removeAll, same, List.takeWhile_cons]
      by_cases marked : symbol = mark
      · have passed : ∀ other ∈ others, (other != lineFeed) = true := by
          intro other member
          simpa using ne_of_mem_of_not_mem member whole.2
        have run : (others ++ rest).dropWhile (· != lineFeed) = rest := by
          rw [List.dropWhile_append_of_pos passed]
          rcases ends with rfl | rfl <;> simp
        have length : (others ++ rest).length - rest.length = others.length := by simp
        simp only [if_pos marked, run, length, removeAll_skip, last]
        simp [marked]
      · simp only [if_neg marked, ih false whole.2]
        simp [marked]

end PMKVLab.Library.Regex
