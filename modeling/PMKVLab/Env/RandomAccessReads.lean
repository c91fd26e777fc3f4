import PMKVLab.Env.ReadOnlyFiles
import PMKVLab.Env.StringFiles

/-! `Read` of the files that `NewRandomAccessFile` returns. Which kind of file that is depends
on how many others are open, so callers see the same answers only where the kinds agree.
-/

namespace PMKVLab.Env

/-- `PosixMmapReadableFile::Read` on a region with the contents of the file. The sum is a
`uint64_t`; a slice that leaves the region has no result.
-/
def mmapRead (filename contents : List UInt8) (offset n : Nat)
    : Option (PosixStatus × Option (List UInt8)) :=
  if contents.length < (offset + n) % 2 ^ 64 then some (.error filename .einval, some [])
  else if offset + n ≤ contents.length then some (.ok, some ((contents.drop offset).take n))
  else none

/-- `pread`, where `static_cast<off_t>` makes large offsets negative. -/
def pread (contents : List UInt8) (offset n : Nat) (outcome : ReadOutcome)
    : Except Errno (List UInt8) :=
  if 2 ^ 63 ≤ offset then .error .einval
  else
    match outcome with
    | .failed errNumber => .error errNumber
    | .got count => .ok ((contents.drop offset).take (min (max count 1) n))

/-- `PosixRandomAccessFile::Read` once it has a descriptor. -/
def preadAnswer (filename contents : List UInt8) (offset n : Nat) (outcome : ReadOutcome)
    : PosixStatus × Option (List UInt8) :=
  match pread contents offset n outcome with
  | .ok bytes => (.ok, some bytes)
  | .error errNumber => (.error filename errNumber, some [])

/-- `Read` of each kind of file: the status, and what it leaves in `*result`. `opened` is the
error of `open`, if it fails; then `*result` is left alone.
-/
def RandomAccessFile.read (file : RandomAccessFile) (filename contents : List UInt8)
    (opened : Option Errno) (outcome : ReadOutcome) (offset n : Nat)
    : Option (PosixStatus × Option (List UInt8)) :=
  match file, opened with
  | .mmapped, _ => mmapRead filename contents offset n
  | .descriptor _, _ => some (preadAnswer filename contents offset n outcome)
  | .temporary, some errNumber => some (.error filename errNumber, none)
  | .temporary, none => some (preadAnswer filename contents offset n outcome)

section Kinds

variable {filename contents : List UInt8} {offset n count : Nat}

/-- A `pread` that is not cut short returns what the file holds there. -/
theorem preadAnswer_complete (small : offset < 2 ^ 63) (enough : n ≤ count)
    : preadAnswer filename contents offset n (.got count)
      = (.ok, some ((contents.drop offset).take n)) := by
  have all : min (max count 1) n = n := by omega
  simp only [preadAnswer, pread, if_neg (Nat.not_le.mpr small), all]

theorem preadAnswer_negative (large : 2 ^ 63 ≤ offset) (outcome : ReadOutcome)
    : preadAnswer filename contents offset n outcome = (.error filename .einval, some []) := by
  simp only [preadAnswer, pread, if_pos large]

/-- Inside the file the mapping has the bytes of the file. -/
theorem mmapRead_inside (sized : contents.length < 2 ^ 63)
    (inside : offset + n ≤ contents.length)
    : mmapRead filename contents offset n = some (.ok, some ((contents.drop offset).take n)) := by
  have noWrap : (offset + n) % 2 ^ 64 = offset + n := Nat.mod_eq_of_lt (by omega)
  rw [mmapRead, noWrap, if_neg (by omega), if_pos inside]

/-- Past the end it reports an error, unless the sum wraps around to a small one. -/
theorem mmapRead_outside (outside : contents.length < offset + n)
    : mmapRead filename contents offset n
      = if contents.length < (offset + n) % 2 ^ 64 then
          some (.error filename .einval, some [])
        else none := by
  rw [mmapRead, if_neg (Nat.not_le.mpr outside)]

end Kinds

/-- When the system calls succeed and no read is cut short, all kinds of files give the same
answer exactly if the read lies inside the file, or if its offset is negative as an `off_t`
and the sum of offset and size does not wrap around to a place inside. In particular a read
over the end of the file is short through a descriptor and an error through a mapping.
-/
theorem RandomAccessFile.read_same_iff {filename contents : List UInt8}
    (sized : contents.length < 2 ^ 63) {offset n count : Nat} (enough : n ≤ count)
    : (∀ left right : RandomAccessFile,
        left.read filename contents none (.got count) offset n
          = right.read filename contents none (.got count) offset n)
      ↔ offset + n ≤ contents.length
        ∨ 2 ^ 63 ≤ offset ∧ contents.length < (offset + n) % 2 ^ 64 := by
  constructor
  · intro same
    have agree : mmapRead filename contents offset n
        = some (preadAnswer filename contents offset n (.got count)) :=
      same .mmapped .temporary
    rcases Nat.lt_or_ge contents.length (offset + n) with outside | inside
    · rw [mmapRead_outside outside] at agree
      rcases Nat.lt_or_ge offset (2 ^ 63) with small | large
      · rw [preadAnswer_complete small enough] at agree
        split at agree <;> cases agree
      · refine .inr ⟨large, ?_⟩
        by_contra wraps
        rw [if_neg wraps] at agree
        cases agree
    · exact .inl inside
  · intro either
    have agree : mmapRead filename contents offset n
        = some (preadAnswer filename contents offset n (.got count)) := by
      rcases either with inside | ⟨large, rejected⟩
      · rw [mmapRead_inside sized inside, preadAnswer_complete (by omega) enough]
      · rw [mmapRead_outside (by omega), if_pos rejected, preadAnswer_negative large]
    have each (file : RandomAccessFile)
        : file.read filename contents none (.got count) offset n
          = some (preadAnswer filename contents offset n (.got count)) := by
      cases file with
      | mmapped => exact agree
      | descriptor fd => rfl
      | temporary => rfl
    intro left right
    rw [each, each]

/-- Witness: a read inside a file, and one over its end. -/
theorem RandomAccessFile.read_same_iff_end
    : (∀ left right : RandomAccessFile,
        left.read [] [1, 2, 3] none (.got 2) 1 2 = right.read [] [1, 2, 3] none (.got 2) 1 2)
      ∧ ¬ ∀ left right : RandomAccessFile,
        left.read [] [1, 2, 3] none (.got 2) 2 2 = right.read [] [1, 2, 3] none (.got 2) 2 2 :=
  ⟨(read_same_iff (by decide) (by decide)).mpr (.inl (by decide)),
    fun same => absurd ((read_same_iff (by decide) (by decide)).mp same) (by decide)⟩

end PMKVLab.Env
