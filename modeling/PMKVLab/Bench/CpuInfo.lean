import PMKVLab.Bench.Operations
import PMKVLab.Library.Memory
import PMKVLab.Library.Words

/-! `PrintEnvironment`: `/proc/cpuinfo` is read piece by piece into an array of 1000
characters, each piece is cut at its first colon, and `TrimSpace` walks over both sides.
-/

namespace PMKVLab.Bench

open PMKVLab.Library PMKVLab.Store

-----------------------------------------------------------------------------------------
-- Slices
-----------------------------------------------------------------------------------------

/-- A `Slice`: `data_`, as the distance from the start of the array it points into, and
`size_`.
-/
structure Slice where
  data : Int
  size : Nat
deriving DecidableEq, Repr

namespace Slice

/-- `operator[]`, with its assertion. -/
def charAt (memory : Memory UInt8) (s : Slice) (n : Nat) : Option UInt8 :=
  if n < s.size then memory (s.data + n) else none

/-- `ToString`. -/
def toBytes (memory : Memory UInt8) (s : Slice) : Option Bytes := memory.read s.data s.size

/-- `operator==` with a literal: the contents are compared for equal sizes only. -/
def equals (memory : Memory UInt8) (s : Slice) (text : Bytes) : Option Bool :=
  if s.size = text.length then (s.toBytes memory).map (· == text) else some false

end Slice

/-- `isspace` in the "C" locale. -/
def isspace (c : UInt8) : Bool := c == 32 || (9 ≤ c && c ≤ 13)

/-- The first loop of `TrimSpace`, with `left` characters from `start` to the end. -/
def trimFront (memory : Memory UInt8) (s : Slice) : (left start : Nat) → Option Nat
  | 0, start => some start
  | left + 1, start => do
      let c ← s.charAt memory start
      if isspace c then trimFront memory s left (start + 1) else some start

/-- The second loop of `TrimSpace`, with `left` characters from `start` to `limit`. -/
def trimBack (memory : Memory UInt8) (s : Slice) (start : Nat) : (left : Nat) → Option Nat
  | 0 => some start
  | left + 1 => do
      let c ← s.charAt memory (start + left)
      if isspace c then trimBack memory s start left else some (start + left + 1)

/-- `TrimSpace`; a read outside the memory has no result. -/
def trimSpace (memory : Memory UInt8) (s : Slice) : Option Slice := do
  let start ← trimFront memory s s.size 0
  let limit ← trimBack memory s start (s.size - start)
  return ⟨s.data + start, limit - start⟩

-----------------------------------------------------------------------------------------
-- The scan of /proc/cpuinfo
-----------------------------------------------------------------------------------------

/-- `fgets` with room for some characters: up to a newline, which is kept, or to the end of
the file. What is left of the file comes second.
-/
def fgets : Nat → Bytes → Bytes × Bytes
  | 0, content => ([], content)
  | _ + 1, [] => ([], [])
  | room + 1, c :: rest =>
      if c = 10 then ([c], rest)
      else
        let (piece, later) := fgets room rest
        (c :: piece, later)

/-- The pieces of the file, until `fgets` returns `NULL`; `fuel` bounds their number. -/
def fgetsPieces : Nat → Bytes → List Bytes
  | 0, _ => []
  | _ + 1, [] => []
  | fuel + 1, c :: rest =>
      let (piece, later) := fgets 999 (c :: rest)
      piece :: fgetsPieces fuel later

/-- The pieces that the loop of `PrintEnvironment` sees; each has a character at least. -/
def cpuinfoPieces (content : Bytes) : List Bytes := fgetsPieces content.length content

/-- `line` after a piece and its terminator have been stored. -/
def fillLine (line piece : Bytes) : Bytes := overwrite line 0 (piece ++ [0])

/-- The C string that starts a text. -/
def cString (text : Bytes) : Bytes := text.takeWhile (· != 0)

/-- `strchr(line, c)`, as a distance from the start. -/
def strchrAt (line : Bytes) (c : UInt8) : Option Nat := (cString line).idxOf? c

/-- `Slice(line, sep - 1 - line)`: the size is converted to `size_t`. -/
def keySlice (sep : Nat) : Slice := ⟨0, toUInt64 (sep - 1)⟩

/-- `Slice(sep + 1)`: the size is found by `strlen`. -/
def valSlice (line : Bytes) (sep : Nat) : Slice :=
  ⟨sep + 1, (cString (line.drop (sep + 1))).length⟩

/-- The bytes of a literal. -/
def literal (text : String) : Bytes := text.toList.map fun c => UInt8.ofNat c.toNat

/-- The locals of the scan. -/
structure CpuInfo where
  numCpus : Nat
  cpuType : Bytes
  cacheSize : Bytes
deriving DecidableEq, Repr

namespace CpuInfo

def start : CpuInfo := ⟨0, [], []⟩

/-- The loop's body after `fgets`. -/
def scanLine (info : CpuInfo) (line : Bytes) : Option CpuInfo :=
  match strchrAt line 58 with
  | none => some info
  | some sep => do
      let key ← trimSpace (.ofArray line) (keySlice sep)
      let val ← trimSpace (.ofArray line) (valSlice line sep)
      if ← key.equals (.ofArray line) (literal "model name") then
        return { info with
          numCpus := info.numCpus + 1, cpuType := ← val.toBytes (.ofArray line) }
      else if ← key.equals (.ofArray line) (literal "cache size") then
        return { info with cacheSize := ← val.toBytes (.ofArray line) }
      else return info

/-- The loop over the pieces; `line` keeps what earlier pieces have left in it. -/
def scan : List Bytes → Bytes → CpuInfo → Option CpuInfo
  | [], _, info => some info
  | piece :: rest, line, info => do
      let next ← info.scanLine (fillLine line piece)
      scan rest (fillLine line piece) next

/-- The two lines that are printed last. -/
def print (info : CpuInfo) : Bytes :=
  literal "CPU:        " ++ literal (toString info.numCpus) ++ literal " * "
    ++ cString info.cpuType ++ literal "\n"
    ++ literal "CPUCache:   " ++ cString info.cacheSize ++ literal "\n"

end CpuInfo

/-- `PrintEnvironment`: what it prints, with the text of `ctime`, the file if it can be
opened, and the unspecified contents of `line`.
-/
def printEnvironment (now : Bytes) (cpuinfo : Option Bytes) (line : Bytes) : Option Bytes :=
  match cpuinfo with
  | none => some (literal "Date:       " ++ now)
  | some content => do
      let info ← CpuInfo.scan (cpuinfoPieces content) line .start
      return literal "Date:       " ++ now ++ info.print

-----------------------------------------------------------------------------------------
-- What TrimSpace returns
-----------------------------------------------------------------------------------------

section Trim

variable {memory : Memory UInt8} {s : Slice}

theorem Slice.charAt_of_stores {n : Nat} {c : UInt8} {rest : Bytes}
    (stores : memory.Stores (s.data + n) (c :: rest)) (inside : n < s.size)
    : s.charAt memory n = some c := by
  rw [Slice.charAt, if_pos inside, stores.1]

/-- The first loop stops behind the leading white space, by induction on what is left. -/
theorem trimFront_eq {text : Bytes} {start : Nat} (stores : memory.Stores (s.data + start) text)
    (ends : start + text.length = s.size)
    : trimFront memory s text.length start
      = some (start + (text.takeWhile isspace).length) := by
  induction text generalizing start with
  | nil => rfl
  | cons c rest ih =>
      rw [List.length_cons] at ends
      rw [List.length_cons, trimFront, Slice.charAt_of_stores stores (by omega),
        Option.bind_eq_bind, Option.bind_some, List.takeWhile_cons]
      split
      · have later : memory.Stores (s.data + (start + 1 : Nat)) rest := by
          rw [Int.natCast_succ, ← Int.add_assoc]
          exact stores.2
        rw [ih later (by omega), List.length_cons]
        congr 1
        omega
      · rfl

/-- The second loop stops before the trailing white space, by induction from the end. -/
theorem trimBack_eq {text : Bytes} {start : Nat} (stores : memory.Stores (s.data + start) text)
    (inside : start + text.length ≤ s.size)
    : trimBack memory s start text.length
      = some (start + (text.rdropWhile isspace).length) := by
  induction text using List.reverseRecOn with
  | nil => rfl
  | append_singleton rest c ih =>
      rw [List.length_append, List.length_singleton] at inside
      have last : memory.Stores (s.data + (start + rest.length : Nat)) [c] := by
        rw [Int.natCast_add, ← Int.add_assoc]
        exact stores.right
      rw [List.length_append, List.length_singleton, trimBack,
        Slice.charAt_of_stores last (by omega), Option.bind_eq_bind, Option.bind_some,
        List.rdropWhile_concat]
      split
      · exact ih stores.left (by omega)
      · rw [List.length_append, List.length_singleton]
        rfl

theorem stores_dropWhile {start : Int} {text : Bytes} (stores : memory.Stores start text)
    : memory.Stores (start + (text.takeWhile isspace).length) (text.dropWhile isspace) := by
  rw [← List.takeWhile_append_dropWhile (p := isspace) (l := text)] at stores
  exact stores.right

/-- The trimmed slice holds the trimmed text. -/
theorem stores_strip {start : Int} {text : Bytes} (stores : memory.Stores start text)
    : memory.Stores (start + (text.takeWhile isspace).length) (strip isspace text) := by
  obtain ⟨back, whole⟩ := List.rdropWhile_prefix isspace (text.dropWhile isspace)
  have behind := stores_dropWhile stores
  rw [← whole] at behind
  exact behind.left

/-- `TrimSpace` removes the white space on both sides, and reads nothing but its argument:
only the bytes of the slice need to be readable.
-/
theorem trimSpace_eq {text : Bytes} (size : text.length = s.size)
    (stores : memory.Stores s.data text)
    : trimSpace memory s
      = some ⟨s.data + (text.takeWhile isspace).length, (strip isspace text).length⟩ := by
  have parts : (text.takeWhile isspace).length + (text.dropWhile isspace).length = s.size := by
    rw [← List.length_append, List.takeWhile_append_dropWhile, size]
  have front : trimFront memory s s.size 0 = some (text.takeWhile isspace).length := by
    have stops := @trimFront_eq memory s text 0 (by simpa using stores) (by omega)
    rwa [size, Nat.zero_add] at stops
  have back := trimBack_eq (stores_dropWhile stores) (by omega)
  have left : s.size - (text.takeWhile isspace).length = (text.dropWhile isspace).length := by
    omega
  rw [trimSpace, front, Option.bind_eq_bind, Option.bind_some, left, back]
  simp only [Option.bind_some, Nat.add_sub_cancel_left]
  rfl

/-- A slice that starts with a solid character is next read at its end. -/
theorem trimSpace_eq_none {n : Nat} {c : UInt8} (size : s.size = n + 1)
    (first : memory s.data = some c) (solid : isspace c = false)
    (outside : memory (s.data + n) = none)
    : trimSpace memory s = none := by
  have front : trimFront memory s s.size 0 = some 0 := by
    have here : s.charAt memory 0 = some c := by
      rw [Slice.charAt, if_pos (by omega), Int.natCast_zero, Int.add_zero, first]
    rw [size, trimFront, here]
    simp [solid]
  have back : trimBack memory s 0 (n + 1) = none := by
    have last : s.charAt memory (0 + n) = none := by
      rw [Slice.charAt, if_pos (by omega), Nat.zero_add, outside]
    rw [trimBack, last]
    rfl
  rw [trimSpace, front, Option.bind_eq_bind, Option.bind_some, Nat.sub_zero, size, back]
  rfl

end Trim

-----------------------------------------------------------------------------------------
-- The pieces
-----------------------------------------------------------------------------------------

theorem fgets_append (room : Nat) (content : Bytes)
    : (fgets room content).1 ++ (fgets room content).2 = content := by
  fun_induction fgets room content with
  | case1 content => rfl
  | case2 room => rfl
  | case3 room rest => rfl
  | case4 room c rest _ piece later read ih =>
      rw [read] at ih
      rw [List.cons_append, ih]

theorem fgets_length (room : Nat) (content : Bytes) : (fgets room content).1.length ≤ room := by
  fun_induction fgets room content with
  | case1 content => exact Nat.le_refl 0
  | case2 room => exact Nat.zero_le _
  | case3 room rest => exact Nat.succ_le_succ (Nat.zero_le room)
  | case4 room c rest _ piece later read ih =>
      rw [read] at ih
      exact Nat.succ_le_succ ih

/-- A file that has not ended gives a character. -/
theorem fgets_ne_nil (room : Nat) (c : UInt8) (rest : Bytes)
    : (fgets (room + 1) (c :: rest)).1 ≠ [] := by
  rw [fgets]
  split
  · exact List.cons_ne_nil _ _
  · exact List.cons_ne_nil _ _

/-- The fuel is enough for the whole file, since no piece is empty. -/
theorem fgetsPieces_flatten {fuel : Nat} {content : Bytes} (enough : content.length ≤ fuel)
    : (fgetsPieces fuel content).flatten = content := by
  induction fuel generalizing content with
  | zero =>
      rw [List.eq_nil_of_length_eq_zero (Nat.le_zero.mp enough)]
      rfl
  | succ fuel ih =>
      cases content with
      | nil => rfl
      | cons c rest =>
          have whole := fgets_append 999 (c :: rest)
          have some : 0 < (fgets 999 (c :: rest)).1.length :=
            List.length_pos_of_ne_nil (fgets_ne_nil 998 c rest)
          have lengths := congrArg List.length whole
          rw [List.length_append] at lengths
          rw [fgetsPieces, List.flatten_cons, ih (by omega), whole]

/-- The loop ends when the file has been read, and has seen all of it. -/
theorem cpuinfoPieces_flatten (content : Bytes) : (cpuinfoPieces content).flatten = content :=
  fgetsPieces_flatten (Nat.le_refl content.length)

/-- Every piece fits the array, with its terminator. -/
theorem length_of_mem_fgetsPieces {fuel : Nat} {content piece : Bytes}
    (member : piece ∈ fgetsPieces fuel content)
    : piece.length ≤ 999 := by
  induction fuel generalizing content with
  | zero => cases member
  | succ fuel ih =>
      cases content with
      | nil => cases member
      | cons c rest =>
          rcases List.mem_cons.mp member with rfl | later
          · exact fgets_length 999 (c :: rest)
          · exact ih later

-----------------------------------------------------------------------------------------
-- The array
-----------------------------------------------------------------------------------------

theorem fillLine_eq (line piece : Bytes)
    : fillLine line piece = piece ++ 0 :: line.drop (piece.length + 1) := by
  simp [fillLine, overwrite]

theorem fillLine_length {line piece : Bytes} (fits : piece.length < line.length)
    : (fillLine line piece).length = line.length := by
  rw [fillLine_eq, List.length_append, List.length_cons, List.length_drop]
  omega

/-- The terminator hides what is behind it. -/
theorem cString_append_zero (text rest : Bytes) : cString (text ++ 0 :: rest) = cString text := by
  unfold cString
  rw [List.takeWhile_append, List.takeWhile_cons_of_neg (by decide), List.append_nil]
  split
  · next whole => exact (List.takeWhile_prefix _).eq_of_length whole |>.symm
  · rfl

theorem strchrAt_fillLine (line piece : Bytes) (c : UInt8)
    : strchrAt (fillLine line piece) c = (cString piece).idxOf? c := by
  rw [strchrAt, fillLine_eq, cString_append_zero]

theorem lt_of_idxOf_cString {piece : Bytes} {c : UInt8} {sep : Nat}
    (found : (cString piece).idxOf? c = some sep)
    : sep < piece.length := by
  obtain ⟨inside, _⟩ := List.idxOf?_eq_some_iff.mp found
  exact Nat.lt_of_lt_of_le inside (List.takeWhile_prefix _).length_le

theorem idxOf_cString_eq_zero_iff {piece : Bytes} {c : UInt8} (solid : c ≠ 0)
    : (cString piece).idxOf? c = some 0 ↔ piece.head? = some c := by
  cases piece with
  | nil => simp [cString]
  | cons first rest =>
      by_cases same : first = c
      · subst same
        simp [cString, solid, List.idxOf?_cons]
      · have later (text : Bytes) : (first :: text).idxOf? c ≠ some 0 := by
          simp [List.idxOf?_cons, same]
        have other : (cString (first :: rest)).idxOf? c ≠ some 0 := by
          unfold cString
          rw [List.takeWhile_cons]
          split
          · exact later _
          · simp
        simp [other, same]

theorem valSlice_fillLine {line piece : Bytes} {sep : Nat} (inside : sep < piece.length)
    : valSlice (fillLine line piece) sep
      = ⟨sep + 1, (cString (piece.drop (sep + 1))).length⟩ := by
  rw [valSlice, fillLine_eq, List.drop_append_of_le_length inside, cString_append_zero]

theorem keySlice_succ {sep : Nat} (small : sep < 2 ^ 64) : keySlice (sep + 1) = ⟨0, sep⟩ := by
  have size : toUInt64 ((sep + 1 : Nat) - 1 : Int) = sep := by
    unfold toUInt64
    omega
  rw [keySlice, size]

-----------------------------------------------------------------------------------------
-- The slices of a line
-----------------------------------------------------------------------------------------

/-- The slice lies within the characters of a line. -/
def Slice.Within (s : Slice) (line : Bytes) : Prop := 0 ≤ s.data ∧ s.data + s.size ≤ line.length

/-- A slice inside the text of another one. -/
theorem Slice.Within.of_strip {line text : Bytes} {start : Nat}
    (within : (⟨start, text.length⟩ : Slice).Within line)
    : (⟨start + (text.takeWhile isspace).length, (strip isspace text).length⟩ : Slice).Within
        line := by
  have parts : (text.takeWhile isspace).length + (text.dropWhile isspace).length = text.length := by
    rw [← List.length_append, List.takeWhile_append_dropWhile]
  have trimmed := (List.rdropWhile_prefix isspace (text.dropWhile isspace)).length_le
  obtain ⟨_, ends⟩ := within
  unfold Slice.Within strip
  dsimp only at ends ⊢
  omega

/-- The slices that are built for a line with a separator: those handed to `TrimSpace`, and
those it returns.
-/
structure SlicesWithin (line piece : Bytes) (sep : Nat) : Prop where
  key : (keySlice sep).Within piece
  val : (valSlice line sep).Within piece
  trimmedKey : ∃ key, trimSpace (.ofArray line) (keySlice sep) = some key ∧ key.Within piece
  trimmedVal : ∃ val, trimSpace (.ofArray line) (valSlice line sep) = some val
    ∧ val.Within piece

section Line

variable {line piece : Bytes} {sep : Nat}

/-- The characters that the key slice covers. -/
theorem key_stores (sep : Nat)
    : (Memory.ofArray (fillLine line piece)).Stores (0 : Nat) (piece.take sep) := by
  apply Memory.ofArray_stores
  rw [fillLine_eq, List.drop_zero]
  exact (List.take_prefix sep piece).trans (List.prefix_append piece _)

/-- The characters that the value slice covers. -/
theorem val_stores (inside : sep < piece.length)
    : (Memory.ofArray (fillLine line piece)).Stores (sep + 1 : Nat)
        (cString (piece.drop (sep + 1))) := by
  apply Memory.ofArray_stores
  rw [fillLine_eq, List.drop_append_of_le_length inside]
  exact (List.takeWhile_prefix _).trans (List.prefix_append _ _)

/-- The key is what stands before the separator, less one character. -/
theorem trimSpace_keySlice (small : piece.length ≤ 999) (inside : sep + 1 < piece.length)
    : trimSpace (.ofArray (fillLine line piece)) (keySlice (sep + 1))
      = some ⟨((piece.take sep).takeWhile isspace).length,
          (strip isspace (piece.take sep)).length⟩ := by
  have length : (piece.take sep).length = sep := by
    rw [List.length_take]
    omega
  rw [keySlice_succ (by omega), trimSpace_eq length (key_stores sep), Int.zero_add]

theorem trimSpace_valSlice (inside : sep < piece.length)
    : trimSpace (.ofArray (fillLine line piece)) (valSlice (fillLine line piece) sep)
      = some ⟨(sep + 1 : Nat) + ((cString (piece.drop (sep + 1))).takeWhile isspace).length,
          (strip isspace (cString (piece.drop (sep + 1)))).length⟩ := by
  rw [valSlice_fillLine inside]
  exact trimSpace_eq rfl (val_stores inside)

/-- A separator in the first place gives a key of nearly 2^64 characters, whose last one is
outside the array.
-/
theorem trimSpace_keySlice_zero (room : line.length = 1000) (small : piece.length ≤ 999)
    (first : piece.head? = some 58)
    : trimSpace (.ofArray (fillLine line piece)) (keySlice 0) = none := by
  have here : Memory.ofArray (fillLine line piece) 0 = some 58 := by
    obtain ⟨rest, rfl⟩ := List.head?_eq_some_iff.mp first
    rw [fillLine_eq]
    rfl
  have size : (keySlice 0).size = (2 ^ 64 - 2) + 1 := rfl
  refine trimSpace_eq_none size here (by decide) ?_
  have behind : (fillLine line piece).length ≤ 2 ^ 64 - 2 := by
    rw [fillLine_length (by omega)]
    omega
  exact Memory.ofArray_of_length_le behind

end Line

-----------------------------------------------------------------------------------------
-- The scan
-----------------------------------------------------------------------------------------

namespace CpuInfo

/-- What an entry of the file changes. -/
def record (info : CpuInfo) (key val : Bytes) : CpuInfo :=
  if key = literal "model name" then
    { info with numCpus := info.numCpus + 1, cpuType := val }
  else if key = literal "cache size" then { info with cacheSize := val }
  else info

/-- What a piece of the file changes: the key stands before the first colon, less the
character next to it, and the value behind the colon, up to a NUL.
-/
def take (info : CpuInfo) (piece : Bytes) : CpuInfo :=
  match (cString piece).idxOf? 58 with
  | none => info
  | some sep =>
      info.record (strip isspace (piece.take (sep - 1)))
        (strip isspace (cString (piece.drop (sep + 1))))

end CpuInfo

/-- A comparison with a literal, of a slice that can be read. -/
theorem Slice.equals_of_stores {memory : Memory UInt8} {start : Int} {text : Bytes}
    (stores : memory.Stores start text) (other : Bytes)
    : (⟨start, text.length⟩ : Slice).equals memory other = some (text == other) := by
  unfold Slice.equals
  split
  · rw [Slice.toBytes, Memory.read_of_stores stores, Option.map_some]
  · next longer =>
    have differs : text ≠ other := fun same => longer (congrArg List.length same)
    rw [beq_false_of_ne differs]

section Scan

variable {line piece : Bytes} {info : CpuInfo}

/-- A piece that does not start with a colon is read as the entry it holds. -/
theorem scanLine_fillLine (small : piece.length ≤ 999) (apart : piece.head? ≠ some 58)
    : info.scanLine (fillLine line piece) = some (info.take piece) := by
  unfold CpuInfo.scanLine CpuInfo.take
  rw [strchrAt_fillLine]
  cases found : (cString piece).idxOf? 58 with
  | none => rfl
  | some sep =>
      have inside := lt_of_idxOf_cString found
      cases sep with
      | zero => exact absurd ((idxOf_cString_eq_zero_iff (by decide)).mp found) apart
      | succ sep =>
          have key := stores_strip (@key_stores line piece sep)
          have val := stores_strip (@val_stores line piece (sep + 1) inside)
          have text : Slice.toBytes (.ofArray (fillLine line piece)) ⟨_, _⟩ = _ :=
            Memory.read_of_stores val
          dsimp only
          rw [trimSpace_keySlice small inside, trimSpace_valSlice inside]
          simp only [Option.bind_eq_bind, Option.bind_some]
          rw [Int.natCast_zero, Int.zero_add] at key
          rw [Slice.equals_of_stores key, Slice.equals_of_stores key, text, Nat.add_sub_cancel,
            CpuInfo.record]
          simp only [Option.bind_some, Option.pure_def, beq_iff_eq, apply_ite some]

theorem scanLine_fillLine_none (room : line.length = 1000) (small : piece.length ≤ 999)
    (first : piece.head? = some 58)
    : info.scanLine (fillLine line piece) = none := by
  unfold CpuInfo.scanLine
  rw [strchrAt_fillLine, (idxOf_cString_eq_zero_iff (by decide)).mpr first]
  dsimp only
  rw [trimSpace_keySlice_zero room small first]
  rfl

/-- The loop over the pieces ends with their entries taken in order, unless a piece starts
with a colon. Witness: induction on the pieces; the array keeps its length.
-/
theorem scan_eq {parts : List Bytes} (room : line.length = 1000)
    (small : ∀ piece ∈ parts, piece.length ≤ 999)
    : CpuInfo.scan parts line info
      = if ∃ piece ∈ parts, piece.head? = some 58 then none
        else some (parts.foldl CpuInfo.take info) := by
  induction parts generalizing line info with
  | nil => simp [CpuInfo.scan]
  | cons piece rest ih =>
      have fits := small piece List.mem_cons_self
      have filled : (fillLine line piece).length = 1000 := by
        rw [fillLine_length (by omega), room]
      have later := fun part member => small part (List.mem_cons_of_mem piece member)
      rw [CpuInfo.scan]
      by_cases first : piece.head? = some 58
      · rw [scanLine_fillLine_none room fits first, if_pos ⟨piece, List.mem_cons_self, first⟩]
        rfl
      · rw [scanLine_fillLine fits first, Option.bind_eq_bind, Option.bind_some, ih filled later]
        simp [first]

end Scan

/-- What `PrintEnvironment` prints, for a file that can be opened; reads outside the array
are made exactly when a piece starts with a colon.
-/
theorem printEnvironment_eq (now content : Bytes) {line : Bytes} (room : line.length = 1000)
    : printEnvironment now (some content) line
      = if ∃ piece ∈ cpuinfoPieces content, piece.head? = some 58 then none
        else some (literal "Date:       " ++ now
          ++ ((cpuinfoPieces content).foldl CpuInfo.take .start).print) := by
  have small : ∀ piece ∈ cpuinfoPieces content, piece.length ≤ 999 :=
    fun piece member => length_of_mem_fgetsPieces member
  unfold printEnvironment
  dsimp only
  rw [scan_eq room small]
  split
  · rfl
  · rfl

/-- The slices of a line with a separator are within it, unless the separator is first. -/
theorem slicesWithin_of_head_ne {line piece : Bytes} {sep : Nat} (small : piece.length ≤ 999)
    (apart : piece.head? ≠ some 58) (found : strchrAt (fillLine line piece) 58 = some sep)
    : SlicesWithin (fillLine line piece) piece sep := by
  rw [strchrAt_fillLine] at found
  have inside := lt_of_idxOf_cString found
  cases sep with
  | zero => exact absurd ((idxOf_cString_eq_zero_iff (by decide)).mp found) apart
  | succ sep =>
      have length : (piece.take sep).length = sep := by
        rw [List.length_take]
        omega
      have strlen := (List.takeWhile_prefix (l := piece.drop (sep + 2)) (· != 0)).length_le
      rw [List.length_drop] at strlen
      have key : (⟨(0 : Nat), (piece.take sep).length⟩ : Slice).Within piece := by
        rw [length]
        exact ⟨Int.le_refl 0, by dsimp only; omega⟩
      have val : (⟨(sep + 2 : Nat), (cString (piece.drop (sep + 2))).length⟩ : Slice).Within
          piece :=
        ⟨by dsimp only; omega, by dsimp only [cString]; omega⟩
      refine ⟨?_, ?_, ⟨_, trimSpace_keySlice small inside, ?_⟩,
        ⟨_, trimSpace_valSlice inside, val.of_strip⟩⟩
      · rw [keySlice_succ (by omega)]
        rwa [length] at key
      · rw [valSlice_fillLine inside]
        exact val
      · have trimmed := key.of_strip
        rwa [Int.natCast_zero, Int.zero_add] at trimmed

/-- The scan stays inside its lines, and `TrimSpace` is exact, for exactly those files in
which no piece that `fgets` reads starts with a colon. `TrimSpace` gives its result in every
memory in which its argument can be read.
-/
theorem printEnvironment_within_iff (content : Bytes)
    : ((∀ piece ∈ cpuinfoPieces content, ∀ line : Bytes, line.length = 1000
          → ∀ sep : Nat, strchrAt (fillLine line piece) 58 = some sep
            → SlicesWithin (fillLine line piece) piece sep)
        ∧ ∀ (memory : Memory UInt8) (s : Slice) (text : Bytes),
            text.length = s.size → memory.Stores s.data text
            → trimSpace memory s
              = some ⟨s.data + (text.takeWhile isspace).length, (strip isspace text).length⟩)
      ↔ ∀ piece ∈ cpuinfoPieces content, piece.head? ≠ some 58 := by
  constructor
  · intro within piece member first
    have found : strchrAt (fillLine (List.replicate 1000 0) piece) 58 = some 0 := by
      rw [strchrAt_fillLine]
      exact (idxOf_cString_eq_zero_iff (by decide)).mpr first
    have slices := within.1 piece member (List.replicate 1000 0) List.length_replicate 0 found
    obtain ⟨key, trimmed, _⟩ := slices.trimmedKey
    rw [trimSpace_keySlice_zero List.length_replicate (length_of_mem_fgetsPieces member) first]
      at trimmed
    cases trimmed
  · intro apart
    refine ⟨?_, fun memory s text size stores => trimSpace_eq size stores⟩
    intro piece member line room sep found
    exact slicesWithin_of_head_ne (length_of_mem_fgetsPieces member) (apart piece member) found

/-- A line that starts with a colon: the key has 2^64 - 1 characters, and trimming it reads
outside the array.
-/
theorem printEnvironment_leaves_line
    : cpuinfoPieces (literal ": 1\n") = [literal ": 1\n"]
      ∧ strchrAt (fillLine (List.replicate 1000 0) (literal ": 1\n")) 58 = some 0
      ∧ ¬ (keySlice 0).Within (literal ": 1\n")
      ∧ trimSpace (.ofArray (fillLine (List.replicate 1000 0) (literal ": 1\n"))) (keySlice 0)
        = none
      ∧ printEnvironment [] (some (literal ": 1\n")) (List.replicate 1000 0) = none := by
  have small : (literal ": 1\n").length ≤ 999 := by decide
  refine ⟨by decide, ?_, ?_, ?_, ?_⟩
  · rw [strchrAt_fillLine]
    decide
  · intro within
    exact absurd within.2 (by decide)
  · exact trimSpace_keySlice_zero List.length_replicate small rfl
  · rw [printEnvironment_eq [] _ List.length_replicate]
    exact if_pos ⟨literal ": 1\n", by decide, rfl⟩

end PMKVLab.Bench
