import Mathlib.Algebra.Order.Group.Multiset
import PMKVLab.Library.Counting
import PMKVLab.Library.Transitions

/-! Read-only files of `env_posix.cc`: the two `Limiter`s, `NewRandomAccessFile` with its
mmap path and its descriptor path, `Read` on files without a descriptor, and the
destructors, for any number of threads and any failures of `open`, `stat` and `mmap`.
-/

namespace PMKVLab.Env

open PMKVLab.Library

-----------------------------------------------------------------------------------------
-- The limits
-----------------------------------------------------------------------------------------

/-- `MaxMmaps` in a 64-bit binary; `limit` is the static `mmap_limit`. -/
def maxMmaps (limit : Int) : Int := if 0 ≤ limit then limit else 1000

/-- What `getrlimit(RLIMIT_NOFILE)` reports. -/
inductive NoFileLimit
  | failed
  | infinity
  | current (rlimCur : Nat)
deriving DecidableEq, Repr

/-- `MaxOpenFiles`; `limit` is the static `open_read_only_file_limit`, an `int`. -/
def maxOpenFiles (limit : Int) (rlim : NoFileLimit) : Int :=
  if 0 ≤ limit then limit
  else
    match rlim with
    | .failed => 50
    | .infinity => 2 ^ 31 - 1
    | .current rlimCur => Int.bmod (rlimCur / 5 : Nat) (2 ^ 32)

/-- `Limiter`: the resources that may still be acquired. -/
@[ext]
structure Limiter where
  allowed : Int
deriving DecidableEq, Repr

namespace Limiter

/-- The first check of `Acquire`, made without the mutex. -/
def available (limiter : Limiter) : Bool := decide (0 < limiter.allowed)

/-- The critical section of `Acquire`. -/
def acquire (limiter : Limiter) : Option Limiter :=
  if limiter.allowed ≤ 0 then none else some ⟨limiter.allowed - 1⟩

def release (limiter : Limiter) : Limiter := ⟨limiter.allowed + 1⟩

end Limiter

-----------------------------------------------------------------------------------------
-- Files, calls and the kernel
-----------------------------------------------------------------------------------------

/-- The live `RandomAccessFile` objects: a `PosixMmapReadableFile`, or a
`PosixRandomAccessFile` with its descriptor or with `temporary_fd_` set.
-/
inductive RandomAccessFile
  | mmapped
  | descriptor (fd : Nat)
  | temporary
deriving DecidableEq, Repr

/-- Where a call is. `NewRandomAccessFile` goes from `opened` to `refused`; `unmapping`,
`closing` and the releases belong to the destructors, `reading` to `Read` on a temporary
descriptor.
-/
inductive FileCall
  | opened (fd : Nat)
  | awaitingMmap (fd : Nat)
  | mapping (fd : Nat)
  | mapped (fd : Nat)
  | unmapped (fd : Nat)
  | constructing (fd : Nat)
  | awaitingFd (fd : Nat)
  | refused (fd : Nat)
  | unmapping
  | releasingMmap
  | closing (fd : Nat)
  | releasingFd
  | reading (fd : Nat)
deriving DecidableEq, Repr

/-- The two limiters, the mapped regions and open descriptors of the process, and whether
some descriptor was closed that was not open.
-/
@[ext]
structure FileTable where
  mmapLimit : Limiter
  fdLimit : Limiter
  mappings : Nat
  descriptors : List Nat
  closedTwice : Bool
deriving DecidableEq, Repr

def FileTable.init (mmapLimit fdLimit : Int) : FileTable where
  mmapLimit := ⟨mmapLimit⟩
  fdLimit := ⟨fdLimit⟩
  mappings := 0
  descriptors := []
  closedTwice := false

def FileTable.close (table : FileTable) (fd : Nat) : FileTable :=
  if fd ∈ table.descriptors then { table with descriptors := table.descriptors.erase fd }
  else { table with closedTwice := true }

/-- One step of a call: what it does to the table, where it goes on, and the file it
returns. `mapSucceeds` says whether `GetFileSize` and `mmap` both succeed.
-/
def FileCall.advance (table : FileTable) (mapSucceeds : Bool)
    : FileCall → FileTable × List FileCall × List RandomAccessFile
  | .opened fd =>
      if table.mmapLimit.available then (table, [.awaitingMmap fd], [])
      else (table, [.constructing fd], [])
  | .awaitingMmap fd =>
      match table.mmapLimit.acquire with
      | some taken => ({ table with mmapLimit := taken }, [.mapping fd], [])
      | none => (table, [.constructing fd], [])
  | .mapping fd =>
      if mapSucceeds then ({ table with mappings := table.mappings + 1 }, [.mapped fd], [])
      else (table, [.unmapped fd], [])
  | .mapped fd => (table.close fd, [], [.mmapped])
  | .unmapped fd => (table.close fd, [.releasingMmap], [])
  | .constructing fd =>
      if table.fdLimit.available then (table, [.awaitingFd fd], [])
      else (table, [.refused fd], [])
  | .awaitingFd fd =>
      match table.fdLimit.acquire with
      | some taken => ({ table with fdLimit := taken }, [], [.descriptor fd])
      | none => (table, [.refused fd], [])
  | .refused fd => (table.close fd, [], [.temporary])
  | .unmapping => ({ table with mappings := table.mappings - 1 }, [.releasingMmap], [])
  | .releasingMmap => ({ table with mmapLimit := table.mmapLimit.release }, [], [])
  | .closing fd => (table.close fd, [.releasingFd], [])
  | .releasingFd => ({ table with fdLimit := table.fdLimit.release }, [], [])
  | .reading fd => (table.close fd, [], [])

/-- The destructor of a file; one without a descriptor does nothing. -/
def RandomAccessFile.destroy : RandomAccessFile → List FileCall
  | .mmapped => [.unmapping]
  | .descriptor fd => [.closing fd]
  | .temporary => []

/-- The table, the calls in flight and the files in use. -/
structure ReadOnlyFiles where
  table : FileTable
  calls : List FileCall
  files : List RandomAccessFile
deriving DecidableEq, Repr

/-- Scheduler choices. `opened` is the result of `open`, and picks a free descriptor when it
succeeds.
-/
inductive FileAction
  | newRandomAccessFile (opened : Option Nat)
  | read (opened : Option Nat)
  | advance (k : Nat) (mapSucceeds : Bool)
  | destroy (k : Nat)
deriving DecidableEq, Repr

namespace ReadOnlyFiles

def init (mmapLimit fdLimit : Int) : ReadOnlyFiles := ⟨.init mmapLimit fdLimit, [], []⟩

/-- `PosixEnv`'s constructor; `mmaps` and `files` are the two static limits. -/
def posixEnv (mmaps files : Int) (rlim : NoFileLimit) : ReadOnlyFiles :=
  init (maxMmaps mmaps) (maxOpenFiles files rlim)

/-- `open(fname.c_str(), O_RDONLY)` at the start of a call; a failure ends the call. -/
def openFor (s : ReadOnlyFiles) (call : Nat → FileCall) : Option Nat → Option ReadOnlyFiles
  | none => some s
  | some fd =>
      if fd ∈ s.table.descriptors then none
      else
        some { s with
          table := { s.table with descriptors := fd :: s.table.descriptors }
          calls := call fd :: s.calls }

def step (action : FileAction) (s : ReadOnlyFiles) : Option ReadOnlyFiles :=
  match action with
  | .newRandomAccessFile opened => s.openFor .opened opened
  | .read opened => if .temporary ∈ s.files then s.openFor .reading opened else none
  | .advance k mapSucceeds =>
      match s.calls[k]? with
      | none => none
      | some call =>
          let (table, calls, files) := call.advance s.table mapSucceeds
          some ⟨table, calls ++ s.calls.eraseIdx k, files ++ s.files⟩
  | .destroy k =>
      match s.files[k]? with
      | none => none
      | some file =>
          some { s with calls := file.destroy ++ s.calls, files := s.files.eraseIdx k }

end ReadOnlyFiles

-----------------------------------------------------------------------------------------
-- Who owns what
-----------------------------------------------------------------------------------------

/-- Slots of the mmap limiter, mapped regions, slots of the descriptor limiter, and
descriptors.
-/
abbrev Resources := Nat × Nat × Nat × Multiset Nat

def mmapSlot : Resources := (1, 0, 0, 0)
def region : Resources := (0, 1, 0, 0)
def fdSlot : Resources := (0, 0, 1, 0)
def openFd (fd : Nat) : Resources := (0, 0, 0, {fd})

def FileCall.owns : FileCall → Resources
  | .opened fd | .awaitingMmap fd | .constructing fd | .awaitingFd fd | .refused fd
  | .reading fd => openFd fd
  | .mapping fd | .unmapped fd => openFd fd + mmapSlot
  | .mapped fd => openFd fd + (region + mmapSlot)
  | .unmapping => region + mmapSlot
  | .releasingMmap => mmapSlot
  | .closing fd => openFd fd + fdSlot
  | .releasingFd => fdSlot

def RandomAccessFile.owns : RandomAccessFile → Resources
  | .mmapped => region + mmapSlot
  | .descriptor fd => openFd fd + fdSlot
  | .temporary => 0

def ReadOnlyFiles.owned (s : ReadOnlyFiles) : Resources :=
  (s.calls.map FileCall.owns).sum + (s.files.map RandomAccessFile.owns).sum

/-- A slot is free or taken, and slots are taken only within the limit. -/
structure Limiter.Accounts (limit : Int) (limiter : Limiter) (taken : Nat) : Prop where
  total : limiter.allowed + taken = limit
  bound : taken = 0 ∨ 0 ≤ limiter.allowed

theorem Limiter.Accounts.acquire {limit : Int} {limiter next : Limiter} {taken : Nat}
    (accounts : limiter.Accounts limit taken) (acquired : limiter.acquire = some next)
    : next.Accounts limit (1 + taken) := by
  have total := accounts.total
  unfold Limiter.acquire at acquired
  split at acquired
  · cases acquired
  · cases acquired
    exact ⟨by simp only; omega, .inr (by simp only; omega)⟩

theorem Limiter.Accounts.release {limit : Int} {limiter : Limiter} {taken : Nat}
    (accounts : limiter.Accounts limit (1 + taken))
    : limiter.release.Accounts limit taken := by
  have total := accounts.total
  have bound := accounts.bound
  exact ⟨by simp only [Limiter.release]; omega, .inr (by simp only [Limiter.release]; omega)⟩

/-- No more slots are taken than the limit allows; a negative limit allows none. -/
theorem Limiter.Accounts.le {limit : Int} {limiter : Limiter} {taken : Nat}
    (accounts : limiter.Accounts limit taken)
    : taken ≤ limit.toNat := by
  have total := accounts.total
  have bound := accounts.bound
  omega

/-- The table agrees with what is owned: slots are free or owned, each mapping and each
open descriptor has one owner.
-/
structure FileTable.Accounts (mmapLimit fdLimit : Int) (table : FileTable)
    (owned : Resources) : Prop where
  mmapSlots : table.mmapLimit.Accounts mmapLimit owned.1
  mappings : table.mappings = owned.2.1
  fdSlots : table.fdLimit.Accounts fdLimit owned.2.2.1
  descriptors : (table.descriptors : Multiset Nat) = owned.2.2.2
  distinct : table.descriptors.Nodup
  closedOnce : table.closedTwice = false

namespace FileTable.Accounts

variable {mmapLimit fdLimit : Int} {table : FileTable} {owned : Resources} {fd : Nat}

/-- `open` hands out a descriptor that nobody owns. -/
theorem openFresh (accounts : table.Accounts mmapLimit fdLimit owned)
    (fresh : fd ∉ table.descriptors)
    : FileTable.Accounts mmapLimit fdLimit
        { table with descriptors := fd :: table.descriptors } (openFd fd + owned) where
  mmapSlots := by simpa [openFd] using accounts.mmapSlots
  mappings := by simpa [openFd] using accounts.mappings
  fdSlots := by simpa [openFd] using accounts.fdSlots
  descriptors := by simp [openFd, ← accounts.descriptors]
  distinct := List.nodup_cons.mpr ⟨fresh, accounts.distinct⟩
  closedOnce := accounts.closedOnce

/-- Closing an owned descriptor ends its ownership; it was open. -/
theorem close (accounts : table.Accounts mmapLimit fdLimit (openFd fd + owned))
    : (table.close fd).Accounts mmapLimit fdLimit owned := by
  have split : (table.descriptors : Multiset Nat) = fd ::ₘ owned.2.2.2 := by
    simpa [openFd] using accounts.descriptors
  have member : fd ∈ table.descriptors := by
    rw [← Multiset.mem_coe, split]
    exact Multiset.mem_cons_self fd _
  have left : ((table.descriptors.erase fd : List Nat) : Multiset Nat) = owned.2.2.2 := by
    rw [← Multiset.coe_erase, split, Multiset.erase_cons_head]
  rw [FileTable.close, if_pos member]
  exact {
    mmapSlots := by simpa [openFd] using accounts.mmapSlots
    mappings := by simpa [openFd] using accounts.mappings
    fdSlots := by simpa [openFd] using accounts.fdSlots
    descriptors := left
    distinct := accounts.distinct.erase fd
    closedOnce := accounts.closedOnce }

theorem acquireMmap (accounts : table.Accounts mmapLimit fdLimit owned) {taken : Limiter}
    (acquired : table.mmapLimit.acquire = some taken)
    : FileTable.Accounts mmapLimit fdLimit { table with mmapLimit := taken }
        (mmapSlot + owned) where
  mmapSlots := accounts.mmapSlots.acquire acquired
  mappings := by simpa [mmapSlot] using accounts.mappings
  fdSlots := by simpa [mmapSlot] using accounts.fdSlots
  descriptors := by simpa [mmapSlot] using accounts.descriptors
  distinct := accounts.distinct
  closedOnce := accounts.closedOnce

theorem releaseMmap (accounts : table.Accounts mmapLimit fdLimit (mmapSlot + owned))
    : FileTable.Accounts mmapLimit fdLimit
        { table with mmapLimit := table.mmapLimit.release } owned where
  mmapSlots := accounts.mmapSlots.release
  mappings := by simpa [mmapSlot] using accounts.mappings
  fdSlots := by simpa [mmapSlot] using accounts.fdSlots
  descriptors := by simpa [mmapSlot] using accounts.descriptors
  distinct := accounts.distinct
  closedOnce := accounts.closedOnce

theorem acquireFd (accounts : table.Accounts mmapLimit fdLimit owned) {taken : Limiter}
    (acquired : table.fdLimit.acquire = some taken)
    : FileTable.Accounts mmapLimit fdLimit { table with fdLimit := taken }
        (fdSlot + owned) where
  mmapSlots := by simpa [fdSlot] using accounts.mmapSlots
  mappings := by simpa [fdSlot] using accounts.mappings
  fdSlots := accounts.fdSlots.acquire acquired
  descriptors := by simpa [fdSlot] using accounts.descriptors
  distinct := accounts.distinct
  closedOnce := accounts.closedOnce

theorem releaseFd (accounts : table.Accounts mmapLimit fdLimit (fdSlot + owned))
    : FileTable.Accounts mmapLimit fdLimit
        { table with fdLimit := table.fdLimit.release } owned where
  mmapSlots := by simpa [fdSlot] using accounts.mmapSlots
  mappings := by simpa [fdSlot] using accounts.mappings
  fdSlots := accounts.fdSlots.release
  descriptors := by simpa [fdSlot] using accounts.descriptors
  distinct := accounts.distinct
  closedOnce := accounts.closedOnce

theorem mapRegion (accounts : table.Accounts mmapLimit fdLimit owned)
    : FileTable.Accounts mmapLimit fdLimit { table with mappings := table.mappings + 1 }
        (region + owned) where
  mmapSlots := by simpa [region] using accounts.mmapSlots
  mappings := by simp [region, accounts.mappings, Nat.add_comm]
  fdSlots := by simpa [region] using accounts.fdSlots
  descriptors := by simpa [region] using accounts.descriptors
  distinct := accounts.distinct
  closedOnce := accounts.closedOnce

theorem unmapRegion (accounts : table.Accounts mmapLimit fdLimit (region + owned))
    : FileTable.Accounts mmapLimit fdLimit { table with mappings := table.mappings - 1 }
        owned where
  mmapSlots := by simpa [region] using accounts.mmapSlots
  mappings := by simp [region, accounts.mappings]
  fdSlots := by simpa [region] using accounts.fdSlots
  descriptors := by simpa [region] using accounts.descriptors
  distinct := accounts.distinct
  closedOnce := accounts.closedOnce

/-- Every step of a call hands on exactly what the call owns. -/
theorem advance {call : FileCall}
    (accounts : table.Accounts mmapLimit fdLimit (call.owns + owned)) (mapSucceeds : Bool)
    : (call.advance table mapSucceeds).1.Accounts mmapLimit fdLimit
        (((call.advance table mapSucceeds).2.1.map FileCall.owns).sum
          + ((call.advance table mapSucceeds).2.2.map RandomAccessFile.owns).sum
          + owned) := by
  cases call with
  | opened fd =>
      simp only [FileCall.advance]
      split
      · simpa [FileCall.owns] using accounts
      · simpa [FileCall.owns] using accounts
  | awaitingMmap fd =>
      simp only [FileCall.advance]
      split
      · next taken acquired =>
          have taken := accounts.acquireMmap acquired
          simpa [FileCall.owns, add_assoc, add_left_comm] using taken
      · simpa [FileCall.owns] using accounts
  | mapping fd =>
      simp only [FileCall.advance]
      split
      · have mapped := accounts.mapRegion
        simpa [FileCall.owns, add_assoc, add_left_comm] using mapped
      · simpa [FileCall.owns] using accounts
  | mapped fd =>
      rw [FileCall.owns, add_assoc] at accounts
      simpa [FileCall.advance, RandomAccessFile.owns] using accounts.close
  | unmapped fd =>
      rw [FileCall.owns, add_assoc] at accounts
      simpa [FileCall.advance, FileCall.owns] using accounts.close
  | constructing fd =>
      simp only [FileCall.advance]
      split
      · simpa [FileCall.owns] using accounts
      · simpa [FileCall.owns] using accounts
  | awaitingFd fd =>
      simp only [FileCall.advance]
      split
      · next taken acquired =>
          have taken := accounts.acquireFd acquired
          simpa [FileCall.owns, RandomAccessFile.owns, add_assoc, add_left_comm] using taken
      · simpa [FileCall.owns] using accounts
  | refused fd => simpa [FileCall.advance, RandomAccessFile.owns] using accounts.close
  | unmapping =>
      rw [FileCall.owns, add_assoc] at accounts
      simpa [FileCall.advance, FileCall.owns] using accounts.unmapRegion
  | releasingMmap => simpa [FileCall.advance] using accounts.releaseMmap
  | closing fd =>
      rw [FileCall.owns, add_assoc] at accounts
      simpa [FileCall.advance, FileCall.owns] using accounts.close
  | releasingFd => simpa [FileCall.advance] using accounts.releaseFd
  | reading fd => simpa [FileCall.advance] using accounts.close

end FileTable.Accounts

namespace ReadOnlyFiles

variable {mmapLimit fdLimit : Int} {s next : ReadOnlyFiles}

/-- Everything the table holds is owned by a call in flight or a file in use. -/
def Accounted (mmapLimit fdLimit : Int) (s : ReadOnlyFiles) : Prop :=
  s.table.Accounts mmapLimit fdLimit s.owned

theorem init_accounted (mmapLimit fdLimit : Int)
    : (init mmapLimit fdLimit).Accounted mmapLimit fdLimit where
  mmapSlots := ⟨by simp [init, FileTable.init, owned], .inl rfl⟩
  mappings := rfl
  fdSlots := ⟨by simp [init, FileTable.init, owned], .inl rfl⟩
  descriptors := rfl
  distinct := List.nodup_nil
  closedOnce := rfl

/-- A call that begins with `open` owns the descriptor it gets. -/
theorem Accounted.openFor (accounted : s.Accounted mmapLimit fdLimit) {call : Nat → FileCall}
    (owns : ∀ fd, (call fd).owns = openFd fd) {opened : Option Nat}
    (begun : s.openFor call opened = some next)
    : next.Accounted mmapLimit fdLimit := by
  cases opened with
  | none =>
      cases begun
      exact accounted
  | some fd =>
      simp only [ReadOnlyFiles.openFor] at begun
      split at begun
      · cases begun
      · next fresh =>
          cases begun
          have opened := FileTable.Accounts.openFresh accounted fresh
          simpa [Accounted, owned, owns, add_assoc] using opened

/-- Every scheduler choice keeps the accounts. -/
theorem Accounted.step (action : FileAction) (before after : ReadOnlyFiles)
    (accounted : before.Accounted mmapLimit fdLimit)
    (taken : ReadOnlyFiles.step action before = some after)
    : after.Accounted mmapLimit fdLimit := by
  cases action with
  | newRandomAccessFile opened => exact accounted.openFor (fun _ => rfl) taken
  | read opened =>
      simp only [ReadOnlyFiles.step] at taken
      split at taken
      · exact accounted.openFor (fun _ => rfl) taken
      · cases taken
  | advance k mapSucceeds =>
      simp only [ReadOnlyFiles.step] at taken
      split at taken
      · cases taken
      · next call found =>
          cases taken
          have calls := sum_map_eraseIdx FileCall.owns found
          have split : before.table.Accounts mmapLimit fdLimit
              (call.owns + (((before.calls.eraseIdx k).map FileCall.owns).sum
                + (before.files.map RandomAccessFile.owns).sum)) := by
            rw [← add_assoc, ← calls]
            exact accounted
          have advanced := split.advance mapSucceeds
          rw [add_add_add_comm] at advanced
          simpa [Accounted, owned] using advanced
  | destroy k =>
      simp only [ReadOnlyFiles.step] at taken
      split at taken
      · cases taken
      · next file found =>
          cases taken
          have files := sum_map_eraseIdx RandomAccessFile.owns found
          have handed : (file.destroy.map FileCall.owns).sum = file.owns := by
            cases file with
            | mmapped | descriptor | temporary => simp [RandomAccessFile.destroy,
                FileCall.owns, RandomAccessFile.owns]
          have same : ({ before with
              calls := file.destroy ++ before.calls
              files := before.files.eraseIdx k } : ReadOnlyFiles).owned = before.owned := by
            simp only [owned, List.map_append, List.sum_append, handed, files]
            rw [add_assoc, add_left_comm]
          rw [Accounted, same]
          exact accounted

/-- A call in flight owns at most one descriptor. -/
theorem calls_descriptors (calls : List FileCall)
    : (calls.map FileCall.owns).sum.2.2.2.card ≤ calls.length := by
  induction calls with
  | nil => simp
  | cons call rest ih =>
      have one : call.owns.2.2.2.card ≤ 1 := by
        cases call with
        | opened | awaitingMmap | mapping | mapped | unmapped | constructing | awaitingFd
        | refused | unmapping | releasingMmap | closing | releasingFd | reading =>
            simp [FileCall.owns, openFd, mmapSlot, region, fdSlot]
      simp only [List.map_cons, List.sum_cons, Prod.snd_add, Multiset.card_add,
        List.length_cons]
      omega

/-- A file owns a slot of the descriptor limiter for each of its descriptors. -/
theorem files_descriptors (files : List RandomAccessFile)
    : (files.map RandomAccessFile.owns).sum.2.2.2.card
      = (files.map RandomAccessFile.owns).sum.2.2.1 := by
  induction files with
  | nil => simp
  | cons file rest ih =>
      have same : file.owns.2.2.2.card = file.owns.2.2.1 := by
        cases file with
        | mmapped | descriptor | temporary =>
            simp [RandomAccessFile.owns, openFd, mmapSlot, region, fdSlot]
      simp only [List.map_cons, List.sum_cons, Prod.snd_add, Prod.fst_add, Multiset.card_add,
        ih, same]

/-- Whoever owns a mapped region owns a slot of the mmap limiter. -/
theorem regions_le_slots (s : ReadOnlyFiles) : s.owned.2.1 ≤ s.owned.1 := by
  have calls : (s.calls.map FileCall.owns).sum.2.1 ≤ (s.calls.map FileCall.owns).sum.1 := by
    refine List.sum_induction (fun owned : Resources => owned.2.1 ≤ owned.1)
      (fun _ _ => Nat.add_le_add) (Nat.le_refl 0) ?_
    intro owned member
    obtain ⟨call, _, rfl⟩ := List.mem_map.mp member
    cases call <;> simp [FileCall.owns, openFd, mmapSlot, region, fdSlot]
  have files : (s.files.map RandomAccessFile.owns).sum.2.1
      ≤ (s.files.map RandomAccessFile.owns).sum.1 := by
    refine List.sum_induction (fun owned : Resources => owned.2.1 ≤ owned.1)
      (fun _ _ => Nat.add_le_add) (Nat.le_refl 0) ?_
    intro owned member
    obtain ⟨file, _, rfl⟩ := List.mem_map.mp member
    cases file <;> simp [RandomAccessFile.owns, openFd, mmapSlot, region, fdSlot]
  exact Nat.add_le_add calls files

/-- Over every interleaving of opens, reads and destructors with any failures: no descriptor
is closed twice, the open descriptors are exactly those of the calls in flight and files in
use, mapped regions stay within the mmap limit and descriptors within the other limit plus
one for each call in flight. With no call and no file left, everything has been given back.
-/
theorem readOnlyFiles_accounted {mmaps files : Int} {rlim : NoFileLimit}
    (reachable : Reachable ReadOnlyFiles.step (posixEnv mmaps files rlim) s)
    : s.table.closedTwice = false
      ∧ s.table.descriptors.Nodup
      ∧ (s.table.descriptors : Multiset Nat) = s.owned.2.2.2
      ∧ s.table.mappings ≤ (maxMmaps mmaps).toNat
      ∧ s.table.descriptors.length ≤ (maxOpenFiles files rlim).toNat + s.calls.length
      ∧ (s.calls = [] → s.files = [] → s.table = (posixEnv mmaps files rlim).table) := by
  have accounted : s.Accounted (maxMmaps mmaps) (maxOpenFiles files rlim) :=
    reachable.invariant (Accounted (maxMmaps mmaps) (maxOpenFiles files rlim))
      (init_accounted _ _) Accounted.step
  refine ⟨accounted.closedOnce, accounted.distinct, accounted.descriptors, ?_, ?_, ?_⟩
  · rw [accounted.mappings]
    exact (regions_le_slots s).trans accounted.mmapSlots.le
  · have slots := accounted.fdSlots.le
    have calls := calls_descriptors s.calls
    have files := files_descriptors s.files
    have count : s.table.descriptors.length = s.owned.2.2.2.card := by
      rw [← accounted.descriptors, Multiset.coe_card]
    simp only [owned, Prod.snd_add, Prod.fst_add, Multiset.card_add] at count slots
    omega
  · intro noCalls noFiles
    have nothing : s.owned = 0 := by simp [owned, noCalls, noFiles]
    rw [Accounted, nothing] at accounted
    have mmapSlots : s.table.mmapLimit.allowed = maxMmaps mmaps := by
      simpa using accounted.mmapSlots.total
    have fdSlots : s.table.fdLimit.allowed = maxOpenFiles files rlim := by
      simpa using accounted.fdSlots.total
    have descriptors : s.table.descriptors = [] := by simpa using accounted.descriptors
    exact FileTable.ext (Limiter.ext mmapSlots) (Limiter.ext fdSlots) accounted.mappings
      descriptors accounted.closedOnce

/-- Room for one mapping and one descriptor: both calls pass the first check of the mmap
limit, one gets the slot and the other the descriptor, and a third file is read without one.
-/
theorem readOnlyFiles_accounted_full
    : execute ReadOnlyFiles.step
        [.newRandomAccessFile (some 3), .newRandomAccessFile (some 4), .advance 0 true,
          .advance 1 true, .advance 1 true, .advance 1 true, .advance 0 true, .advance 0 true,
          .advance 0 true, .advance 0 true, .newRandomAccessFile (some 4), .advance 0 true,
          .advance 0 true, .advance 0 true, .read (some 5)] (posixEnv 1 (-1) (.current 9))
        = some ⟨⟨⟨0⟩, ⟨0⟩, 1, [5, 3], false⟩, [.reading 5],
            [.temporary, .mmapped, .descriptor 3]⟩
      ∧ [5, 3].Nodup ∧ 1 ≤ 1 ∧ [5, 3].length ≤ 1 + 1 := by
  have executed : execute ReadOnlyFiles.step
      [.newRandomAccessFile (some 3), .newRandomAccessFile (some 4), .advance 0 true,
        .advance 1 true, .advance 1 true, .advance 1 true, .advance 0 true, .advance 0 true,
        .advance 0 true, .advance 0 true, .newRandomAccessFile (some 4), .advance 0 true,
        .advance 0 true, .advance 0 true, .read (some 5)] (posixEnv 1 (-1) (.current 9))
      = some ⟨⟨⟨0⟩, ⟨0⟩, 1, [5, 3], false⟩, [.reading 5],
          [.temporary, .mmapped, .descriptor 3]⟩ := by decide
  obtain ⟨_, distinct, _, mappings, descriptors, _⟩ := readOnlyFiles_accounted ⟨_, executed⟩
  exact ⟨executed, distinct, mappings, descriptors⟩

end ReadOnlyFiles

end PMKVLab.Env
