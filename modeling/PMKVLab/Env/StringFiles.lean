import PMKVLab.Env.WritableFile

/-! `WriteStringToFile` and `ReadFileToString` of `env.cc` on the POSIX environment: whole
files written and read back, for every behaviour of the system calls in between.
-/

namespace PMKVLab.Env

open PMKVLab.Library (ascii)

/-- What one call of `read` does: it returns up to `count` bytes, and at least one unless the
file ends, or it fails.
-/
inductive ReadOutcome
  | got (count : Nat)
  | failed (errNumber : Errno)
deriving DecidableEq, Repr

/-- `PosixSequentialFile::Read` of at most `n` bytes, when `left` is what the file still
holds: the status, the fragment and what is left after it.
-/
def sequentialRead (filename : List UInt8) (n : Nat)
    : List ReadOutcome → List UInt8 → Option (PosixStatus × List UInt8 × List UInt8)
  | [], _ => none
  | .failed errNumber :: rest, left =>
      if errNumber = .eintr then sequentialRead filename n rest left
      else some (.error filename errNumber, [], left)
  | .got count :: _, left =>
      let r := min (max count 1) n
      some (.ok, left.take r, left.drop r)

def kBufferSize : Nat := 8192

/-- The loop of `ReadFileToString`; `reads` holds what the system does in each `Read`. -/
def readLoop (filename : List UInt8)
    : List (List ReadOutcome) → List UInt8 → List UInt8 → Option (PosixStatus × List UInt8)
  | [], _, _ => none
  | outcomes :: reads, left, data =>
      (sequentialRead filename kBufferSize outcomes left).bind fun (s, fragment, left) =>
        if s ≠ .ok then some (s, data)
        else if fragment = [] then some (s, data ++ fragment)
        else readLoop filename reads left (data ++ fragment)

/-- `ReadFileToString`; `file` is the file of that name, if there is one, and `opened` the
error of `open`, if it fails on an existing file.
-/
def readFileToString (file : Option (List UInt8)) (fname : List UInt8) (opened : Option Errno)
    (reads : List (List ReadOutcome))
    : Option (PosixStatus × List UInt8) :=
  match file, opened with
  | none, _ => some (.error fname .enoent, [])
  | some _, some errNumber => some (.error fname errNumber, [])
  | some contents, none => readLoop fname reads contents []

/-- What the system calls of one `DoWriteStringToFile` do; an error of a call is `some`. -/
structure WriteScript where
  opened : Option Errno
  appending : List WriteOutcome
  dirOpened : Option Errno
  dirSynced : Option Errno
  syncing : List WriteOutcome
  fdatasynced : Option Errno
  closing : List WriteOutcome
  closed : Option Errno
  destroying : List WriteOutcome
  unlinked : Option Errno
deriving DecidableEq, Repr

/-- `~PosixWritableFile`: closes a file that is still open and ignores errors. -/
def PosixWritableFile.destroy (f : PosixWritableFile) (outcomes : List WriteOutcome)
    : Option PosixWritableFile :=
  if f.isOpen then (f.close outcomes none).map Prod.snd else some f

/-- `DoWriteStringToFile`: its status and the file afterwards. The file is truncated when it
is opened, and deleted when something failed.
-/
def doWriteStringToFile (file : Option (List UInt8)) (data fname : List UInt8)
    (shouldSync : Bool) (script : WriteScript)
    : Option (PosixStatus × Option (List UInt8)) :=
  match script.opened with
  | some errNumber => some (.error fname errNumber, file)
  | none => do
      let (s, f) ← (PosixWritableFile.make fname []).append data script.appending
      let (s, f) ←
        (if s = .ok ∧ shouldSync = true then
          f.sync script.dirOpened script.dirSynced script.syncing script.fdatasynced
        else some (s, f))
      let (s, f) ← (if s = .ok then f.close script.closing script.closed else some (s, f))
      let f ← f.destroy script.destroying
      if s ≠ .ok then
        return (s, if script.unlinked = none then none else some f.contents)
      else return (s, some f.contents)

/-- `WriteStringToFile`. -/
def writeStringToFile (file : Option (List UInt8)) (data fname : List UInt8)
    (script : WriteScript)
    : Option (PosixStatus × Option (List UInt8)) :=
  doWriteStringToFile file data fname false script

/-- `WriteStringToFileSync`. -/
def writeStringToFileSync (file : Option (List UInt8)) (data fname : List UInt8)
    (script : WriteScript)
    : Option (PosixStatus × Option (List UInt8)) :=
  doWriteStringToFile file data fname true script

-----------------------------------------------------------------------------------------
-- Reading
-----------------------------------------------------------------------------------------

/-- A read returns the next bytes, and none of them only at the end of the file. -/
theorem sequentialRead_spec {filename left after fragment : List UInt8} {n : Nat}
    {outcomes : List ReadOutcome} {s : PosixStatus} (positive : 0 < n)
    (ran : sequentialRead filename n outcomes left = some (s, fragment, after))
    : left = fragment ++ after ∧ (s = .ok → fragment = [] → left = []) := by
  fun_induction sequentialRead filename n outcomes left with
  | case1 => cases ran
  | case2 rest left ih => exact ih ran
  | case3 errNumber rest left =>
      cases ran
      exact ⟨rfl, fun ok => by cases ok⟩
  | case4 count rest left r =>
      cases ran
      refine ⟨(List.take_append_drop r left).symm, fun _ none => ?_⟩
      have some : 0 < r := by
        simp only [r]
        omega
      rcases List.take_eq_nil_iff.mp none with zero | empty
      · omega
      · exact empty

/-- The loop collects a front of the file, and all of it when it returns OK. -/
theorem readLoop_spec {filename left data got : List UInt8} {reads : List (List ReadOutcome)}
    {s : PosixStatus} (ran : readLoop filename reads left data = some (s, got))
    : got <+: data ++ left ∧ (s = .ok → got = data ++ left) := by
  induction reads generalizing left data with
  | nil => cases ran
  | cons outcomes reads ih =>
      obtain ⟨⟨status, fragment, after⟩, ranRead, ran⟩ := Option.bind_eq_some_iff.mp ran
      obtain ⟨split, ends⟩ := sequentialRead_spec (by decide) ranRead
      simp only at ran
      split at ran
      · next failed =>
          cases ran
          exact ⟨List.prefix_append _ _, fun ok => absurd ok failed⟩
      · next ok =>
          split at ran
          · next empty =>
              cases ran
              have done := ends (not_not.mp ok) empty
              simp [empty, done]
          · obtain ⟨grows, complete⟩ := ih ran
            rw [List.append_assoc, ← split] at grows complete
            exact ⟨grows, complete⟩

/-- The call is not only interrupted. -/
def answered (outcomes : List ReadOutcome) : Bool :=
  outcomes.any (fun outcome => decide (outcome ≠ .failed .eintr))

theorem sequentialRead_returns {filename left : List UInt8} {n : Nat}
    {outcomes : List ReadOutcome} (answers : answered outcomes = true)
    : ∃ s fragment after, sequentialRead filename n outcomes left = some (s, fragment, after) := by
  induction outcomes with
  | nil => simp [answered] at answers
  | cons outcome rest ih =>
      cases outcome with
      | got count => exact ⟨_, _, _, rfl⟩
      | failed errNumber =>
          by_cases interrupted : errNumber = .eintr
          · subst interrupted
            rw [sequentialRead, if_pos rfl]
            exact ih (by simpa [answered] using answers)
          · exact ⟨_, _, _, if_neg interrupted⟩

/-- One more `Read` than there are bytes is enough: each but the last takes at least one. -/
theorem readLoop_returns {filename left data : List UInt8} {reads : List (List ReadOutcome)}
    (enough : left.length < reads.length)
    (answers : ∀ outcomes ∈ reads, answered outcomes = true)
    : ∃ s got, readLoop filename reads left data = some (s, got) := by
  induction reads generalizing left data with
  | nil => simp at enough
  | cons outcomes reads ih =>
      obtain ⟨s, fragment, after, ran⟩ := @sequentialRead_returns filename left kBufferSize
        outcomes (answers outcomes List.mem_cons_self)
      obtain ⟨split, _⟩ := sequentialRead_spec (by decide) ran
      rw [readLoop, ran, Option.bind_some]
      simp only
      split
      · exact ⟨_, _, rfl⟩
      · split
        · exact ⟨_, _, rfl⟩
        · next some =>
            refine ih ?_ (fun outcomes member => answers outcomes (List.mem_cons_of_mem _ member))
            have taken := List.length_pos_iff.mpr some
            rw [split, List.length_append, List.length_cons] at enough
            omega

-----------------------------------------------------------------------------------------
-- Writing
-----------------------------------------------------------------------------------------

open PosixWritableFile

theorem close_isOpen {f after : PosixWritableFile} {outcomes : List WriteOutcome}
    {closed : Option Errno} {s : PosixStatus} (ran : f.close outcomes closed = some (s, after))
    : after.isOpen = false := by
  obtain ⟨⟨status, rest, flushed⟩, _, same⟩ := Option.map_eq_some_iff.mp ran
  cases same
  rfl

/-- What the steps between `open` and the destructor leave when the last status is OK. -/
theorem written_of_ok {data fname : List UInt8} {shouldSync : Bool} {script : WriteScript}
    {s t u : PosixStatus} {f g h : PosixWritableFile}
    (appended : (make fname []).append data script.appending = some (s, f))
    (synced : (if s = .ok ∧ shouldSync = true then
        f.sync script.dirOpened script.dirSynced script.syncing script.fdatasynced
      else some (s, f)) = some (t, g))
    (closed : (if t = .ok then g.close script.closing script.closed else some (t, g))
      = some (u, h))
    (ok : u = .ok)
    : h.isOpen = false ∧ h.contents = data := by
  split at closed
  · next tOk =>
      have flushes := close_flushes closed
      have all := flushes.keeps.complete ok
      rw [flushes.empty ok, List.append_nil, List.append_nil] at all
      refine ⟨close_isOpen closed, all.trans ?_⟩
      split at synced
      · next sOk =>
          rw [(sync_syncs synced).keeps.complete tOk, (append_keeps appended).complete sOk.1]
          simp [make]
      · cases synced
        rw [(append_keeps appended).complete tOk]
        simp [make]
  · next failed =>
      cases closed
      exact absurd ok failed

/-- A successful write leaves exactly the data; a failed one leaves no file when the deletion
succeeds, and the old file when the new one could not be opened.
-/
theorem doWriteStringToFile_spec {file after : Option (List UInt8)} {data fname : List UInt8}
    {shouldSync : Bool} {script : WriteScript} {s : PosixStatus}
    (wrote : doWriteStringToFile file data fname shouldSync script = some (s, after))
    : (s = .ok → after = some data)
      ∧ (s ≠ .ok → script.opened = none → script.unlinked = none → after = none)
      ∧ (script.opened ≠ none → s ≠ .ok ∧ after = file) := by
  unfold doWriteStringToFile at wrote
  split at wrote
  · next errNumber opened =>
      cases wrote
      simp [opened]
  · next opened =>
      obtain ⟨⟨first, f⟩, appended, wrote⟩ := Option.bind_eq_some_iff.mp wrote
      obtain ⟨⟨second, g⟩, synced, wrote⟩ := Option.bind_eq_some_iff.mp wrote
      obtain ⟨⟨third, h⟩, closed, wrote⟩ := Option.bind_eq_some_iff.mp wrote
      obtain ⟨final, destroyed, wrote⟩ := Option.bind_eq_some_iff.mp wrote
      refine ⟨?_, ?_, fun failed => absurd opened failed⟩
      · split at wrote
        · next failed =>
            cases wrote
            exact fun ok => absurd ok failed
        · next ok =>
            cases wrote
            intro _
            obtain ⟨isClosed, contents⟩ :=
              written_of_ok appended synced closed (not_not.mp ok)
            rw [PosixWritableFile.destroy, isClosed] at destroyed
            cases destroyed
            rw [contents]
      · intro failed _ unlinked
        split at wrote
        · cases wrote
          rfl
        · next ok =>
            cases wrote
            exact absurd (not_not.mp ok) failed

/-- Whatever the system calls do: data that was written without an error is read back
exactly, `ReadFileToString` returns after enough reads, and what it has read when it fails is
a front of the data. A failed write leaves the old file when it could not open the new one,
and otherwise no file when it could delete it.
-/
theorem writeString_roundTrip {file after : Option (List UInt8)} {data fname : List UInt8}
    {shouldSync : Bool} {script : WriteScript} {s : PosixStatus}
    (wrote : doWriteStringToFile file data fname shouldSync script = some (s, after))
    : (s = .ok → ∀ reads, data.length < reads.length
        → (∀ outcomes ∈ reads, answered outcomes = true)
        → ∃ t got, readFileToString after fname none reads = some (t, got)
            ∧ got <+: data ∧ (t = .ok → got = data))
      ∧ (s ≠ .ok → script.opened ≠ none → after = file)
      ∧ (s ≠ .ok → script.opened = none → script.unlinked = none → after = none) := by
  obtain ⟨written, deleted, kept⟩ := doWriteStringToFile_spec wrote
  refine ⟨?_, fun _ refused => (kept refused).2, deleted⟩
  intro ok reads enough answers
  rw [written ok]
  obtain ⟨t, got, ran⟩ := @readLoop_returns fname data [] reads enough answers
  exact ⟨t, got, ran, readLoop_spec ran⟩

/-- Four bytes written with an interruption and read back two at a time. -/
theorem writeString_roundTrip_four
    : doWriteStringToFile none [1, 2, 3, 4] (ascii "f") true
        ⟨none, [], none, none, [.wrote 3, .failed .eintr, .wrote 1], none, [], none, [], none⟩
        = some (.ok, some [1, 2, 3, 4])
      ∧ ∃ t got, readFileToString (some [1, 2, 3, 4]) (ascii "f") none
            [[.got 2], [.failed .eintr, .got 2], [.got 2], [.got 2], [.got 2]]
          = some (t, got)
          ∧ got <+: [1, 2, 3, 4] ∧ (t = .ok → got = [1, 2, 3, 4]) := by
  have wrote : doWriteStringToFile none [1, 2, 3, 4] (ascii "f") true
      ⟨none, [], none, none, [.wrote 3, .failed .eintr, .wrote 1], none, [], none, [], none⟩
      = some (.ok, some [1, 2, 3, 4]) := rfl
  exact ⟨wrote, (writeString_roundTrip wrote).1 rfl _ (by decide) (by decide)⟩

end PMKVLab.Env
