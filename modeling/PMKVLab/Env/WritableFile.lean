import PMKVLab.Env.Status

/-! `PosixWritableFile` of `env_posix.cc`: buffered appends, flushes, syncs and the close, for
every behaviour of `write` (short writes, interruptions, errors) and of the calls around it.
-/

namespace PMKVLab.Env

open PMKVLab.Library (ascii)

/-- What the methods return: success, or the arguments of `PosixError`. -/
inductive PosixStatus
  | ok
  | error (context : List UInt8) (errNumber : Errno)
deriving DecidableEq, Repr

/-- The `Status` of a method; it has none when its messages are too long to be copied. -/
def PosixStatus.toStatus (strerror : Errno → List UInt8) : PosixStatus → Option Status
  | .ok => some .okay
  | .error context errNumber => posixError strerror context errNumber

/-- With messages of a possible length it is OK exactly when the method has succeeded. -/
theorem PosixStatus.toStatus_ok {strerror : Errno → List UInt8} (s : PosixStatus)
    (fits : ∀ context errNumber, s = .error context errNumber
      → (Status.joined context (strerror errNumber)).length + 5 < 2 ^ 32)
    : ∃ status, s.toStatus strerror = some status ∧ (status.ok = true ↔ s = .ok) := by
  cases s with
  | ok => exact ⟨.okay, rfl, by simp [Status.okay, Status.ok]⟩
  | error context errNumber =>
      have made (code : Code)
          : Status.make code context (strerror errNumber)
            = some ⟨some (Status.layout code (Status.joined context (strerror errNumber)))⟩ :=
        Status.make_eq (fits context errNumber rfl)
      have same : posixError strerror context errNumber
          = Status.make (if errNumber = .enoent then .notFound else .ioError) context
              (strerror errNumber) := by
        unfold posixError
        split <;> rfl
      exact ⟨_, same.trans (made _), by simp [Status.ok]⟩

/-- What one call of `write` with a positive size does. -/
inductive WriteOutcome
  | wrote (count : Nat)
  | failed (errNumber : Errno)
deriving DecidableEq, Repr

def kBufSize : Nat := 65536

def ebadf : Errno := .other 9

/-- A `PosixWritableFile` with `buf_[0, pos_)`, and the file behind its descriptor: its
contents, the part that a `fdatasync` has made durable, and the directories synced for it.
-/
structure PosixWritableFile where
  filename : List UInt8
  isOpen : Bool
  buf : List UInt8
  fits : buf.length ≤ kBufSize
  contents : List UInt8
  durable : List UInt8
  syncedDirs : List (List UInt8)

namespace PosixWritableFile

/-- The constructor, on a file that holds `contents`. -/
def make (filename contents : List UInt8) : PosixWritableFile where
  filename := filename
  isOpen := true
  buf := []
  fits := Nat.zero_le _
  contents := contents
  durable := []
  syncedDirs := []

/-- The loop of `WriteRaw` on an open descriptor: whether all is written, the outcomes left
for later calls, and the file. It has no result when the outcomes end before it returns.
-/
def writeLoop (filename : List UInt8)
    : List WriteOutcome → List UInt8 → List UInt8
      → Option (PosixStatus × List WriteOutcome × List UInt8)
  | outcomes, [], contents => some (.ok, outcomes, contents)
  | [], _ :: _, _ => none
  | .failed errNumber :: rest, byte :: bytes, contents =>
      if errNumber = .eintr then writeLoop filename rest (byte :: bytes) contents
      else some (.error filename errNumber, rest, contents)
  | .wrote count :: rest, byte :: bytes, contents =>
      -- `write` returns at most what it was asked for
      let r := min count (byte :: bytes).length
      writeLoop filename rest ((byte :: bytes).drop r) (contents ++ (byte :: bytes).take r)

/-- `WriteRaw`. -/
def writeRaw (f : PosixWritableFile) (outcomes : List WriteOutcome) (data : List UInt8)
    : Option (PosixStatus × List WriteOutcome × List UInt8) :=
  if f.isOpen = false ∧ data ≠ [] then some (.error f.filename ebadf, outcomes, f.contents)
  else writeLoop f.filename outcomes data f.contents

/-- `FlushBuffered`: the buffer is emptied whether or not it was written. -/
def flushBuffered (f : PosixWritableFile) (outcomes : List WriteOutcome)
    : Option (PosixStatus × List WriteOutcome × PosixWritableFile) :=
  (f.writeRaw outcomes f.buf).map fun (s, rest, contents) =>
    (s, rest, { f with buf := [], fits := Nat.zero_le _, contents := contents })

/-- `memcpy(buf_ + pos_, p, copy)` of as much as fits. -/
def fill (f : PosixWritableFile) (data : List UInt8) : PosixWritableFile :=
  { f with
    buf := f.buf ++ data.take (min data.length (kBufSize - f.buf.length))
    fits := by
      have fits := f.fits
      simp only [List.length_append, List.length_take]
      omega }

/-- The second half of `Append`, on a full buffer: `rest` is buffered when it is small and
written directly otherwise.
-/
def flushAndAppend (f : PosixWritableFile) (rest : List UInt8) (outcomes : List WriteOutcome)
    : Option (PosixStatus × PosixWritableFile) :=
  (f.flushBuffered outcomes).bind fun (s, outcomes, flushed) =>
    if s ≠ .ok then some (s, flushed)
    else if small : rest.length < kBufSize then
      some (.ok, { flushed with buf := rest, fits := Nat.le_of_lt small })
    else
      (flushed.writeRaw outcomes rest).map fun (s, _, contents) =>
        (s, { flushed with contents := contents })

/-- `Append`. -/
def append (f : PosixWritableFile) (data : List UInt8) (outcomes : List WriteOutcome)
    : Option (PosixStatus × PosixWritableFile) :=
  let rest := data.drop (min data.length (kBufSize - f.buf.length))
  if rest = [] then some (.ok, f.fill data) else (f.fill data).flushAndAppend rest outcomes

/-- `Flush`. -/
def flush (f : PosixWritableFile) (outcomes : List WriteOutcome)
    : Option (PosixStatus × PosixWritableFile) :=
  (f.flushBuffered outcomes).map fun (s, _, flushed) => (s, flushed)

/-- `Close`; `closed` is the error of `close`, if there is one. -/
def close (f : PosixWritableFile) (outcomes : List WriteOutcome) (closed : Option Errno)
    : Option (PosixStatus × PosixWritableFile) :=
  (f.flushBuffered outcomes).map fun (s, _, flushed) =>
    let closed := if f.isOpen then closed else some ebadf
    let s :=
      match closed with
      | none => s
      | some errNumber => if s = .ok then .error f.filename errNumber else s
    (s, { flushed with isOpen := false })

/-- `filename_.c_str()`. -/
def cStr (name : List UInt8) : List UInt8 := name.takeWhile (· ≠ 0)

/-- The directory and the base name, split at the last `/`. -/
def splitPath (name : List UInt8) : List UInt8 × List UInt8 :=
  let f := cStr name
  let basename := (f.reverse.takeWhile (· ≠ 47)).reverse
  if 47 ∈ f then (f.take (f.length - basename.length - 1), basename) else (ascii ".", f)

/-- `basename.starts_with("MANIFEST")`. -/
def isManifest (name : List UInt8) : Bool := (ascii "MANIFEST").isPrefixOf (splitPath name).2

/-- `SyncDirIfManifest`; `opened` and `synced` are the errors of `open` and `fsync`, if there
are any. No directory has an empty name.
-/
def syncDirIfManifest (f : PosixWritableFile) (opened synced : Option Errno)
    : PosixStatus × PosixWritableFile :=
  let dir := (splitPath f.filename).1
  if isManifest f.filename then
    match if dir = [] then some .enoent else opened with
    | some errNumber => (.error dir errNumber, f)
    | none =>
        match synced with
        | some errNumber => (.error dir errNumber, f)
        | none => (.ok, { f with syncedDirs := f.syncedDirs ++ [dir] })
  else (.ok, f)

/-- `Sync`; `fdatasynced` is the error of `fdatasync`, if there is one. -/
def sync (f : PosixWritableFile) (opened synced : Option Errno)
    (outcomes : List WriteOutcome) (fdatasynced : Option Errno)
    : Option (PosixStatus × PosixWritableFile) :=
  let (s, f) := f.syncDirIfManifest opened synced
  if s ≠ .ok then some (s, f)
  else
    (f.flushBuffered outcomes).map fun (s, _, flushed) =>
      if s ≠ .ok then (s, flushed)
      else
        match if flushed.isOpen then fdatasynced else some ebadf with
        | some errNumber => (.error f.filename errNumber, flushed)
        | none => (.ok, { flushed with durable := flushed.contents })

-----------------------------------------------------------------------------------------
-- Writing
-----------------------------------------------------------------------------------------

/-- The loop writes a front of its data, and all of it exactly when it returns OK. -/
theorem writeLoop_spec {filename data contents after : List UInt8}
    {outcomes rest : List WriteOutcome} {s : PosixStatus}
    (ran : writeLoop filename outcomes data contents = some (s, rest, after))
    : ∃ written left, data = written ++ left ∧ after = contents ++ written
        ∧ (s = .ok ↔ left = []) := by
  fun_induction writeLoop filename outcomes data contents with
  | case1 outcomes contents =>
      cases ran
      exact ⟨[], [], by simp⟩
  | case2 => cases ran
  | case3 rest byte bytes contents ih => exact ih ran
  | case4 errNumber rest byte bytes contents =>
      cases ran
      exact ⟨[], byte :: bytes, by simp⟩
  | case5 count rest byte bytes contents r ih =>
      obtain ⟨written, left, split, grown, done⟩ := ih ran
      refine ⟨(byte :: bytes).take r ++ written, left, ?_, ?_, done⟩
      · rw [List.append_assoc, ← split, List.take_append_drop]
      · rw [grown, List.append_assoc]

theorem writeRaw_spec {f : PosixWritableFile} {data after : List UInt8}
    {outcomes rest : List WriteOutcome} {s : PosixStatus}
    (ran : f.writeRaw outcomes data = some (s, rest, after))
    : ∃ written left, data = written ++ left ∧ after = f.contents ++ written
        ∧ (s = .ok ↔ left = []) := by
  unfold writeRaw at ran
  split at ran
  · next closed =>
      cases ran
      exact ⟨[], data, by simp [closed.2]⟩
  · exact writeLoop_spec ran

/-- A call that writes something or gives up. -/
def WriteOutcome.advances : WriteOutcome → Bool
  | .wrote count => decide (0 < count)
  | .failed errNumber => decide (errNumber ≠ .eintr)

/-- The loop ends: as many calls that write something as there are bytes are enough, however
many interruptions come in between.
-/
theorem writeLoop_isSome (filename : List UInt8) {data contents : List UInt8}
    {outcomes : List WriteOutcome}
    (enough : data.length ≤ outcomes.countP WriteOutcome.advances)
    : (writeLoop filename outcomes data contents).isSome = true := by
  fun_induction writeLoop filename outcomes data contents with
  | case1 => rfl
  | case2 => simp at enough
  | case3 rest byte bytes contents ih =>
      apply ih
      simpa [WriteOutcome.advances] using enough
  | case4 => rfl
  | case5 count rest byte bytes contents r ih =>
      apply ih
      simp only [List.length_drop]
      rw [List.countP_cons] at enough
      by_cases positive : 0 < count
      · simp only [WriteOutcome.advances, positive, decide_true, if_true] at enough
        have some : 0 < r := by
          simp only [r, List.length_cons]
          omega
        omega
      · simp only [WriteOutcome.advances, positive, decide_false, Bool.false_eq_true,
          if_false] at enough
        omega

/-- The loop uses up no more calls that write something than there are bytes. -/
theorem writeLoop_spends {filename data contents after : List UInt8}
    {outcomes rest : List WriteOutcome} {s : PosixStatus}
    (ran : writeLoop filename outcomes data contents = some (s, rest, after))
    : outcomes.countP WriteOutcome.advances
      ≤ rest.countP WriteOutcome.advances + data.length := by
  fun_induction writeLoop filename outcomes data contents with
  | case1 =>
      cases ran
      simp
  | case2 => cases ran
  | case3 rest byte bytes contents ih => simpa [WriteOutcome.advances] using ih ran
  | case4 errNumber rest byte bytes contents =>
      cases ran
      rw [List.countP_cons, List.length_cons]
      split
      · omega
      · omega
  | case5 count rest byte bytes contents r ih =>
      have later := ih ran
      rw [List.length_drop] at later
      rw [List.countP_cons]
      by_cases positive : 0 < count
      · have some : 0 < r := by
          simp only [r, List.length_cons]
          omega
        have within : r ≤ (byte :: bytes).length := Nat.min_le_right _ _
        simp only [WriteOutcome.advances, positive, decide_true, if_true]
        omega
      · simp only [WriteOutcome.advances, positive, decide_false, Bool.false_eq_true, if_false]
        omega

/-- `WriteRaw` returns after enough calls that write something, and leaves the others. -/
theorem writeRaw_returns {f : PosixWritableFile} {data : List UInt8}
    {outcomes : List WriteOutcome}
    (enough : data.length ≤ outcomes.countP WriteOutcome.advances)
    : ∃ s rest after, f.writeRaw outcomes data = some (s, rest, after)
        ∧ outcomes.countP WriteOutcome.advances
          ≤ rest.countP WriteOutcome.advances + data.length := by
  by_cases closed : f.isOpen = false ∧ data ≠ []
  · exact ⟨.error f.filename ebadf, outcomes, f.contents, if_pos closed, by omega⟩
  · obtain ⟨⟨s, rest, after⟩, ran⟩ :=
      Option.isSome_iff_exists.mp (@writeLoop_isSome f.filename data f.contents outcomes enough)
    exact ⟨s, rest, after, (if_neg closed).trans ran, writeLoop_spends ran⟩

-----------------------------------------------------------------------------------------
-- The methods
-----------------------------------------------------------------------------------------

/-- What a call that was given `data` and returned `s` may do: the file grows, what it and
the buffer hold is part of what was given, in order, and all of it when the call returned OK.
-/
structure Keeps (before : PosixWritableFile) (data : List UInt8) (s : PosixStatus)
    (after : PosixWritableFile) : Prop where
  named : after.filename = before.filename
  grows : before.contents <+: after.contents
  ordered : (after.contents ++ after.buf).Sublist (before.contents ++ before.buf ++ data)
  complete : s = .ok → after.contents ++ after.buf = before.contents ++ before.buf ++ data

variable {f middle after : PosixWritableFile} {data more : List UInt8} {s : PosixStatus}

/-- One call after a successful one. -/
theorem Keeps.trans (first : f.Keeps data .ok middle) (second : middle.Keeps more s after)
    : f.Keeps (data ++ more) s after where
  named := second.named.trans first.named
  grows := first.grows.trans second.grows
  ordered := by
    rw [← List.append_assoc, ← first.complete rfl]
    exact second.ordered
  complete ok := by
    rw [← List.append_assoc, ← first.complete rfl]
    exact second.complete ok

/-- A call that failed leaves the rest of its data out. -/
theorem Keeps.stop (failed : f.Keeps data s after) (notOk : s ≠ .ok) (more : List UInt8)
    : f.Keeps (data ++ more) s after where
  named := failed.named
  grows := failed.grows
  ordered := by
    rw [← List.append_assoc]
    exact failed.ordered.trans (List.sublist_append_left _ _)
  complete ok := absurd ok notOk

/-- Writing data directly, on an empty buffer. -/
theorem keeps_writeRaw {outcomes rest : List WriteOutcome} {contents : List UInt8}
    (empty : f.buf = []) (ran : f.writeRaw outcomes data = some (s, rest, contents))
    : f.Keeps data s { f with contents := contents } := by
  obtain ⟨written, left, rfl, rfl, done⟩ := writeRaw_spec ran
  refine ⟨rfl, List.prefix_append _ _, ?_, ?_⟩
  · simp [empty]
  · intro ok
    simp [empty, done.mp ok]

/-- A flush writes a front of the buffer and empties it. -/
theorem flushBuffered_spec {outcomes rest : List WriteOutcome}
    (ran : f.flushBuffered outcomes = some (s, rest, after))
    : f.Keeps [] s after ∧ after.buf = [] ∧ after.syncedDirs = f.syncedDirs := by
  obtain ⟨⟨status, remaining, contents⟩, wrote, same⟩ := Option.map_eq_some_iff.mp ran
  cases same
  obtain ⟨written, left, split, rfl, done⟩ := writeRaw_spec wrote
  refine ⟨⟨rfl, List.prefix_append _ _, ?_, ?_⟩, rfl, rfl⟩
  · simp [split]
  · intro ok
    simp [split, done.mp ok]

/-- Filling the buffer takes a front of the data. -/
theorem keeps_fill (f : PosixWritableFile) (data : List UInt8)
    : f.Keeps (data.take (min data.length (kBufSize - f.buf.length))) .ok (f.fill data) where
  named := rfl
  grows := List.prefix_rfl
  ordered := by simp [fill]
  complete _ := by simp [fill]

theorem flushAndAppend_keeps {outcomes : List WriteOutcome}
    (ran : f.flushAndAppend data outcomes = some (s, after))
    : f.Keeps data s after := by
  obtain ⟨⟨status, outcomes, flushed⟩, ranFlush, ran⟩ := Option.bind_eq_some_iff.mp ran
  obtain ⟨flush, empty, _⟩ := flushBuffered_spec ranFlush
  simp only at ran
  split at ran
  · next failed =>
      cases ran
      exact flush.stop failed data
  · next ok =>
      have ok : status = .ok := not_not.mp ok
      subst ok
      split at ran
      · cases ran
        refine flush.trans ⟨rfl, List.prefix_rfl, ?_, fun _ => ?_⟩
        · simp [empty]
        · simp [empty]
      · obtain ⟨⟨status, remaining, contents⟩, wrote, same⟩ := Option.map_eq_some_iff.mp ran
        cases same
        exact flush.trans (keeps_writeRaw empty wrote)

theorem append_keeps {outcomes : List WriteOutcome}
    (ran : f.append data outcomes = some (s, after))
    : f.Keeps data s after := by
  have filled := keeps_fill f data
  have whole := List.take_append_drop (min data.length (kBufSize - f.buf.length)) data
  unfold append at ran
  generalize data.drop (min data.length (kBufSize - f.buf.length)) = rest at ran whole
  simp only at ran
  rw [← whole]
  split at ran
  · next none =>
      cases ran
      simpa [none] using filled
  · exact filled.trans (flushAndAppend_keeps ran)

/-- A call that flushes and returns OK has written the whole buffer. -/
structure Flushes (before : PosixWritableFile) (s : PosixStatus) (after : PosixWritableFile)
    : Prop where
  keeps : before.Keeps [] s after
  empty : s = .ok → after.buf = []

theorem flush_flushes {outcomes : List WriteOutcome} (ran : f.flush outcomes = some (s, after))
    : f.Flushes s after := by
  obtain ⟨⟨status, rest, flushed⟩, ranFlush, same⟩ := Option.map_eq_some_iff.mp ran
  cases same
  obtain ⟨keeps, empty, _⟩ := flushBuffered_spec ranFlush
  exact ⟨keeps, fun _ => empty⟩

theorem close_flushes {outcomes : List WriteOutcome} {closed : Option Errno}
    (ran : f.close outcomes closed = some (s, after))
    : f.Flushes s after := by
  obtain ⟨⟨status, rest, flushed⟩, ranFlush, same⟩ := Option.map_eq_some_iff.mp ran
  cases same
  obtain ⟨keeps, empty, _⟩ := flushBuffered_spec ranFlush
  refine ⟨⟨keeps.named, keeps.grows, keeps.ordered, ?_⟩, fun _ => empty⟩
  intro ok
  refine keeps.complete ?_
  split at ok
  · exact ok
  · split at ok
    · cases ok
    · exact ok

/-- The directory is synced first; the file itself stays as it is. -/
theorem syncDirIfManifest_spec {opened synced : Option Errno}
    (ran : f.syncDirIfManifest opened synced = (s, after))
    : (∃ dirs, after = { f with syncedDirs := dirs })
      ∧ (s = .ok → isManifest f.filename = true
        → (splitPath f.filename).1 ≠ [] ∧ (splitPath f.filename).1 ∈ after.syncedDirs) := by
  unfold syncDirIfManifest at ran
  simp only at ran
  split at ran
  · split at ran
    · cases ran
      exact ⟨⟨f.syncedDirs, rfl⟩, fun ok => by cases ok⟩
    · next named =>
        split at ran
        · cases ran
          exact ⟨⟨f.syncedDirs, rfl⟩, fun ok => by cases ok⟩
        · cases ran
          refine ⟨⟨_, rfl⟩, fun _ _ => ⟨?_, by simp⟩⟩
          intro empty
          simp [empty] at named
  · next other =>
      cases ran
      exact ⟨⟨f.syncedDirs, rfl⟩, fun _ manifest => absurd manifest other⟩

/-- A sync that returns OK has made the file durable, and its directory when it is a
manifest.
-/
structure Syncs (before : PosixWritableFile) (s : PosixStatus) (after : PosixWritableFile)
    : Prop extends Flushes before s after where
  durable : s = .ok → after.durable = after.contents
  directory : s = .ok → isManifest before.filename = true
    → (splitPath before.filename).1 ≠ [] ∧ (splitPath before.filename).1 ∈ after.syncedDirs

theorem sync_syncs {opened synced fdatasynced : Option Errno} {outcomes : List WriteOutcome}
    (ran : f.sync opened synced outcomes fdatasynced = some (s, after))
    : f.Syncs s after := by
  unfold sync at ran
  generalize prepared : f.syncDirIfManifest opened synced = result at ran
  obtain ⟨status, ready⟩ := result
  obtain ⟨⟨dirs, rfl⟩, directory⟩ := syncDirIfManifest_spec prepared
  simp only at ran
  split at ran
  · next failed =>
      cases ran
      have kept : f.Keeps [] s { f with syncedDirs := dirs } :=
        ⟨rfl, List.prefix_rfl, by simp, fun ok => absurd ok failed⟩
      exact ⟨⟨kept, fun ok => absurd ok failed⟩, fun ok => absurd ok failed, directory⟩
  · next ok =>
      have ok : status = .ok := not_not.mp ok
      obtain ⟨⟨status, rest, flushed⟩, ranFlush, same⟩ := Option.map_eq_some_iff.mp ran
      obtain ⟨keeps, empty, dirs⟩ := flushBuffered_spec ranFlush
      have directory (manifest : isManifest f.filename = true) :=
        dirs ▸ directory ok manifest
      have stopped {t : PosixStatus} (failed : t ≠ .ok) : f.Syncs t flushed :=
        ⟨⟨⟨keeps.named, keeps.grows, keeps.ordered, fun ok => absurd ok failed⟩, fun _ => empty⟩,
          fun ok => absurd ok failed, fun ok => absurd ok failed⟩
      simp only at same
      split at same
      · next failed =>
          cases same
          exact stopped failed
      · next flushedOk =>
          split at same
          · cases same
            exact stopped (by simp)
          · cases same
            exact ⟨⟨⟨keeps.named, keeps.grows, keeps.ordered,
              fun _ => keeps.complete (not_not.mp flushedOk)⟩, fun _ => empty⟩, fun _ => rfl,
              fun _ => directory⟩

-----------------------------------------------------------------------------------------
-- Runs of calls
-----------------------------------------------------------------------------------------

/-- A call of one of the methods, with what the system calls in it do. -/
inductive Call
  | append (data : List UInt8) (outcomes : List WriteOutcome)
  | flush (outcomes : List WriteOutcome)
  | sync (opened synced : Option Errno) (outcomes : List WriteOutcome)
      (fdatasynced : Option Errno)
  | close (outcomes : List WriteOutcome) (closed : Option Errno)
deriving DecidableEq, Repr

namespace Call

/-- The bytes that a call is given. -/
def appended : Call → List UInt8
  | .append data _ => data
  | _ => []

/-- What the writes of a call do. -/
def outcomes : Call → List WriteOutcome
  | .append _ outcomes | .flush outcomes | .sync _ _ outcomes _ | .close outcomes _ => outcomes

def isSync : Call → Bool
  | .sync .. => true
  | _ => false

def isAppend : Call → Bool
  | .append .. => true
  | _ => false

end Call

def call (f : PosixWritableFile) : Call → Option (PosixStatus × PosixWritableFile)
  | .append data outcomes => f.append data outcomes
  | .flush outcomes => f.flush outcomes
  | .sync opened synced outcomes fdatasynced => f.sync opened synced outcomes fdatasynced
  | .close outcomes closed => f.close outcomes closed

/-- Calls one after another, whatever they return. -/
def run (f : PosixWritableFile) : List Call → Option (List PosixStatus × PosixWritableFile)
  | [] => some ([], f)
  | first :: rest => do
      let (s, next) ← f.call first
      let (statuses, final) ← next.run rest
      return (s :: statuses, final)

theorem call_keeps {c : Call} (ran : f.call c = some (s, after)) : f.Keeps c.appended s after := by
  cases c with
  | append data outcomes => exact append_keeps ran
  | flush outcomes => exact (flush_flushes ran).keeps
  | sync opened synced outcomes fdatasynced => exact (sync_syncs ran).keeps
  | close outcomes closed => exact (close_flushes ran).keeps

/-- What a run keeps, by induction on the calls. -/
theorem run_keeps {calls : List Call} {statuses : List PosixStatus}
    (ran : f.run calls = some (statuses, after))
    : after.filename = f.filename
      ∧ f.contents <+: after.contents
      ∧ (after.contents ++ after.buf).Sublist
          (f.contents ++ f.buf ++ calls.flatMap Call.appended)
      ∧ ((∀ s ∈ statuses, s = .ok)
        → after.contents ++ after.buf
          = f.contents ++ f.buf ++ calls.flatMap Call.appended) := by
  induction calls generalizing f statuses with
  | nil =>
      cases ran
      simp
  | cons first rest ih =>
      obtain ⟨⟨s, next⟩, called, ran⟩ := Option.bind_eq_some_iff.mp ran
      obtain ⟨⟨later, final⟩, ran, same⟩ := Option.bind_eq_some_iff.mp ran
      cases same
      have keeps := call_keeps called
      obtain ⟨named, grows, ordered, complete⟩ := ih ran
      refine ⟨named.trans keeps.named, keeps.grows.trans grows, ?_, ?_⟩
      · have both := ordered.trans (keeps.ordered.append_right (rest.flatMap Call.appended))
        simpa using both
      · intro ok
        rw [complete (fun s member => ok s (List.mem_cons_of_mem _ member)),
          keeps.complete (ok _ List.mem_cons_self)]
        simp

/-- The outcomes of the writes in a call suffice for a full buffer and its own bytes. -/
def Call.enough (c : Call) : Prop :=
  kBufSize + c.appended.length ≤ c.outcomes.countP WriteOutcome.advances

instance (c : Call) : Decidable c.enough :=
  inferInstanceAs (Decidable (_ ≤ _))

theorem flushBuffered_returns {outcomes : List WriteOutcome}
    (enough : kBufSize ≤ outcomes.countP WriteOutcome.advances)
    : ∃ s rest after, f.flushBuffered outcomes = some (s, rest, after)
        ∧ outcomes.countP WriteOutcome.advances
          ≤ rest.countP WriteOutcome.advances + kBufSize := by
  have fits := f.fits
  obtain ⟨s, rest, contents, ran, spent⟩ := @writeRaw_returns f f.buf outcomes (by omega)
  have flushed : f.flushBuffered outcomes
      = some (s, rest, { f with buf := [], fits := Nat.zero_le _, contents := contents }) := by
    rw [flushBuffered, ran]
    rfl
  exact ⟨s, rest, _, flushed, Nat.le_trans spent (by omega)⟩

theorem flushAndAppend_returns {outcomes : List WriteOutcome}
    (enough : kBufSize + data.length ≤ outcomes.countP WriteOutcome.advances)
    : ∃ s after, f.flushAndAppend data outcomes = some (s, after) := by
  obtain ⟨s, rest, flushed, ran, spent⟩ := @flushBuffered_returns f outcomes (by omega)
  obtain ⟨t, later, contents, wrote, _⟩ := @writeRaw_returns flushed data rest (by omega)
  rw [flushAndAppend, ran, Option.bind_some]
  simp only
  split
  · exact ⟨_, _, rfl⟩
  · split
    · exact ⟨_, _, rfl⟩
    · rw [wrote]
      exact ⟨_, _, rfl⟩

theorem call_returns {c : Call} (enough : c.enough)
    : ∃ s after, f.call c = some (s, after) := by
  have full : kBufSize ≤ c.outcomes.countP WriteOutcome.advances :=
    Nat.le_trans (Nat.le_add_right _ _) enough
  cases c with
  | append data outcomes =>
      simp only [call, append]
      split
      · exact ⟨_, _, rfl⟩
      · refine flushAndAppend_returns (Nat.le_trans ?_ enough)
        simp only [List.length_drop, Call.appended]
        omega
  | flush outcomes =>
      obtain ⟨s, rest, flushed, ran, _⟩ := @flushBuffered_returns f outcomes full
      exact ⟨s, flushed, by simp [call, flush, ran]⟩
  | sync opened synced outcomes fdatasynced =>
      simp only [call, sync]
      generalize f.syncDirIfManifest opened synced = prepared
      obtain ⟨s, ready⟩ := prepared
      simp only
      split
      · exact ⟨_, _, rfl⟩
      · obtain ⟨t, rest, flushed, ran, _⟩ := @flushBuffered_returns ready outcomes full
        rw [ran]
        exact ⟨_, _, rfl⟩
  | close outcomes closed =>
      obtain ⟨s, rest, flushed, ran, _⟩ := @flushBuffered_returns f outcomes full
      simp only [call, close, ran]
      exact ⟨_, _, rfl⟩

/-- Calls whose writes make progress return, whatever else the system calls do. -/
theorem run_returns {calls : List Call} (enough : ∀ c ∈ calls, c.enough)
    : ∃ statuses after, f.run calls = some (statuses, after) := by
  induction calls generalizing f with
  | nil => exact ⟨[], f, rfl⟩
  | cons first rest ih =>
      obtain ⟨s, next, called⟩ := @call_returns f first (enough first List.mem_cons_self)
      obtain ⟨statuses, after, ran⟩ :=
        @ih next (fun c member => enough c (List.mem_cons_of_mem _ member))
      exact ⟨s :: statuses, after, by simp [run, called, ran]⟩

/-- Over every run of calls and every behaviour of the system calls in which writes make
progress: the calls return, the file only grows, and it and the buffer hold bytes that were
appended, in their order and without repetition. As long as every call has returned OK they
hold all of them.
-/
theorem run_in_order (f : PosixWritableFile) {calls : List Call}
    (enough : ∀ c ∈ calls, c.enough)
    : ∃ statuses after, f.run calls = some (statuses, after)
        ∧ f.contents <+: after.contents
        ∧ (after.contents ++ after.buf).Sublist
            (f.contents ++ f.buf ++ calls.flatMap Call.appended)
        ∧ ((∀ s ∈ statuses, s = .ok)
          → after.contents ++ after.buf
            = f.contents ++ f.buf ++ calls.flatMap Call.appended) := by
  obtain ⟨statuses, after, ran⟩ := @run_returns f calls enough
  obtain ⟨_, grows, ordered, complete⟩ := run_keeps ran
  exact ⟨statuses, after, ran, grows, ordered, complete⟩

/-- Three bytes appended to an existing file; the `Flush` writes them out one at a time. -/
theorem run_in_order_bytewise
    : ∃ statuses after,
        (make (ascii "log") [9]).run
            [.append [1, 2, 3] (List.replicate 65539 (.wrote 1)),
              .flush (List.replicate 65536 (.wrote 1))]
          = some (statuses, after)
        ∧ [9] <+: after.contents
        ∧ (after.contents ++ after.buf).Sublist ([9] ++ [] ++ [1, 2, 3])
        ∧ ((∀ s ∈ statuses, s = .ok) → after.contents ++ after.buf = [9] ++ [] ++ [1, 2, 3])
        ∧ after.contents = [9, 1, 2, 3] := by
  obtain ⟨statuses, after, ran, grows, ordered, complete⟩ :=
    @run_in_order (make (ascii "log") [9])
      [.append [1, 2, 3] (List.replicate 65539 (.wrote 1)),
        .flush (List.replicate 65536 (.wrote 1))]
      (by
        simp only [List.forall_mem_cons, Call.enough, Call.outcomes, List.countP_replicate]
        decide)
  refine ⟨statuses, after, ran, grows, ordered, complete, ?_⟩
  have written : ((make (ascii "log") [9]).run
      [.append [1, 2, 3] (List.replicate 65539 (.wrote 1)),
        .flush (List.replicate 65536 (.wrote 1))]).map (·.2.contents) = some [9, 1, 2, 3] := by
    decide +kernel
  rw [ran] at written
  exact Option.some.inj written

/-- A run with one more call at its end. -/
theorem run_snoc {calls : List Call} {last : Call} {statuses : List PosixStatus}
    (ran : f.run (calls ++ [last]) = some (statuses, after))
    : ∃ earlier before s, f.run calls = some (earlier, before)
        ∧ before.call last = some (s, after) ∧ statuses = earlier ++ [s] := by
  induction calls generalizing f statuses with
  | nil =>
      obtain ⟨⟨s, next⟩, called, ran⟩ := Option.bind_eq_some_iff.mp ran
      cases ran
      exact ⟨[], f, s, rfl, called, rfl⟩
  | cons first rest ih =>
      obtain ⟨⟨s, next⟩, called, ran⟩ := Option.bind_eq_some_iff.mp ran
      obtain ⟨⟨later, final⟩, ran, same⟩ := Option.bind_eq_some_iff.mp ran
      cases same
      obtain ⟨earlier, before, t, ranRest, calledLast, rfl⟩ := ih ran
      refine ⟨s :: earlier, before, t, ?_, calledLast, rfl⟩
      simp [run, called, ranRest]

/-- When every call has returned OK and the last one is a `Flush`, `Sync` or `Close`, the
file holds everything that was appended. After a `Sync` it is durable, and for a manifest its
directory has been synced, which then has a name.
-/
theorem run_flushed {calls : List Call} {last : Call} {statuses : List PosixStatus}
    (ran : f.run (calls ++ [last]) = some (statuses, after))
    (ok : ∀ s ∈ statuses, s = .ok) (flushes : last.isAppend = false)
    : after.contents = f.contents ++ f.buf ++ calls.flatMap Call.appended
      ∧ (last.isSync = true
        → after.durable = after.contents
          ∧ (isManifest f.filename = true
            → (splitPath f.filename).1 ≠ []
              ∧ (splitPath f.filename).1 ∈ after.syncedDirs)) := by
  obtain ⟨_, _, _, complete⟩ := run_keeps ran
  obtain ⟨earlier, before, s, ranEarlier, called, rfl⟩ := run_snoc ran
  have named := (run_keeps ranEarlier).1
  have lastOk : s = .ok := ok s (by simp)
  have written := complete ok
  cases last with
  | append data outcomes => cases flushes
  | flush outcomes =>
      have empty := (flush_flushes called).empty lastOk
      exact ⟨by simpa [empty, Call.appended] using written, fun sync => by cases sync⟩
  | sync opened synced outcomes fdatasynced =>
      have syncs := sync_syncs called
      have empty := syncs.empty lastOk
      refine ⟨by simpa [empty, Call.appended] using written, fun _ => ?_⟩
      exact ⟨syncs.durable lastOk, named ▸ syncs.directory lastOk⟩
  | close outcomes closed =>
      have empty := (close_flushes called).empty lastOk
      exact ⟨by simpa [empty, Call.appended] using written, fun sync => by cases sync⟩

/-- A manifest is synced over a short and an interrupted write. -/
theorem run_flushed_manifest
    : ∃ statuses after,
        (make (ascii "db/MANIFEST-1") []).run
            ([.append [1, 2] []] ++ [.sync none none [.wrote 1, .failed .eintr, .wrote 5] none])
          = some (statuses, after)
        ∧ after.contents = [1, 2] ∧ after.durable = [1, 2]
        ∧ ascii "db" ∈ after.syncedDirs := by
  have ran : ∃ statuses after,
      (make (ascii "db/MANIFEST-1") []).run
          ([.append [1, 2] []] ++ [.sync none none [.wrote 1, .failed .eintr, .wrote 5] none])
        = some (statuses, after)
      ∧ statuses = [.ok, .ok] := ⟨_, _, rfl, rfl⟩
  obtain ⟨statuses, after, ran, ok⟩ := ran
  obtain ⟨contents, synced⟩ := run_flushed ran (by simp [ok]) rfl
  obtain ⟨durable, directory⟩ := synced rfl
  obtain ⟨_, dir⟩ := directory (by decide)
  exact ⟨statuses, after, ran, contents, durable.trans contents, dir⟩

end PosixWritableFile

end PMKVLab.Env
