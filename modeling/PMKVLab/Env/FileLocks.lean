import PMKVLab.Library.Counting
import PMKVLab.Library.Transitions

/-! `LockFile` and `UnlockFile` of `env_posix.cc`: each process has a table of the names it
has locked, and the kernel a record lock for each file. A process loses its record lock on a
file whenever it unlocks or closes any descriptor of that file.
-/

namespace PMKVLab.Env

open PMKVLab.Library

/-- Where a call of `LockFile` (up to `closing`) or `UnlockFile` is: what it has done last is
`open`, a failed `Insert`, a successful `Insert`, a failed `fcntl`, the `close` after that;
nothing yet, the unlocking `fcntl`, the `Remove`.
-/
inductive LockPhase
  | opened
  | refused
  | inserted
  | denied
  | closing
  | unlocking
  | unlocked
  | removed
deriving DecidableEq, Repr

structure LockCall (Pid Name : Type) where
  pid : Pid
  name : Name
  phase : LockPhase
deriving DecidableEq, Repr

/-- A `PosixFileLock` that was returned and not yet unlocked. It is intact as long as its
process has not unlocked or closed another descriptor of the file.
-/
structure HeldLock (Pid Name : Type) where
  pid : Pid
  name : Name
  intact : Bool
deriving DecidableEq, Repr

/-- The `PosixLockTable` of each process, the kernel's lock on each file, the calls in flight
and the locks held.
-/
structure FileLocks (Pid Name File : Type) where
  table : Pid → Name → Bool
  owner : File → Option Pid
  calls : List (LockCall Pid Name)
  held : List (HeldLock Pid Name)

/-- Scheduler choices. `fails` says that `fcntl` fails although nobody else has the lock. A
call whose `open` fails does nothing.
-/
inductive LockAction (Pid Name : Type)
  | lockFile (pid : Pid) (name : Name)
  | unlockFile (k : Nat)
  | advance (k : Nat) (fails : Bool)
deriving DecidableEq, Repr

namespace FileLocks

variable {Pid Name File : Type} [DecidableEq Pid] [DecidableEq Name] [DecidableEq File]

def init : FileLocks Pid Name File where
  table _ _ := false
  owner _ := none
  calls := []
  held := []

/-- `locked_files_.insert` and `locked_files_.erase`. -/
def setTable (s : FileLocks Pid Name File) (pid : Pid) (name : Name) (listed : Bool)
    : FileLocks Pid Name File :=
  { s with table := fun p n => if p = pid ∧ n = name then listed else s.table p n }

-- Names of links to one file resolve to that file.
variable (resolve : Name → File)

/-- The kernel takes the record lock of a file away from a process. -/
def drop (s : FileLocks Pid Name File) (pid : Pid) (file : File) : FileLocks Pid Name File :=
  { s with
    owner := fun f => if f = file ∧ s.owner f = some pid then none else s.owner f
    held := s.held.map fun lock =>
      if lock.pid = pid ∧ resolve lock.name = file then { lock with intact := false }
      else lock }

def addCall (s : FileLocks Pid Name File) (call : LockCall Pid Name)
    : FileLocks Pid Name File :=
  { s with calls := call :: s.calls }

/-- `fcntl(fd, F_SETLK, ...)` for a write lock on the whole file. -/
def grant (s : FileLocks Pid Name File) (pid : Pid) (name : Name)
    : FileLocks Pid Name File :=
  { s with
    owner := fun f => if f = resolve name then some pid else s.owner f
    held := ⟨pid, name, true⟩ :: s.held }

/-- The next step of a call that has been taken out of the list. -/
def advance (s : FileLocks Pid Name File) (fails : Bool) (call : LockCall Pid Name)
    : FileLocks Pid Name File :=
  let pid := call.pid
  let name := call.name
  match call.phase with
  | .opened =>
      if s.table pid name then s.addCall ⟨pid, name, .refused⟩
      else (s.setTable pid name true).addCall ⟨pid, name, .inserted⟩
  | .refused => s.drop resolve pid (resolve name)
  | .inserted =>
      if fails = false ∧ (s.owner (resolve name) = none ∨ s.owner (resolve name) = some pid)
      then s.grant resolve pid name
      else s.addCall ⟨pid, name, .denied⟩
  | .denied => (s.drop resolve pid (resolve name)).addCall ⟨pid, name, .closing⟩
  | .closing => s.setTable pid name false
  | .unlocking => (s.drop resolve pid (resolve name)).addCall ⟨pid, name, .unlocked⟩
  | .unlocked => (s.setTable pid name false).addCall ⟨pid, name, .removed⟩
  | .removed => s.drop resolve pid (resolve name)

def step (action : LockAction Pid Name) (s : FileLocks Pid Name File)
    : Option (FileLocks Pid Name File) :=
  match action with
  | .lockFile pid name => some (s.addCall ⟨pid, name, .opened⟩)
  | .unlockFile k =>
      (s.held[k]?).map fun lock =>
        { s with held := s.held.eraseIdx k }.addCall ⟨lock.pid, lock.name, .unlocking⟩
  | .advance k fails =>
      (s.calls[k]?).map fun call =>
        { s with calls := s.calls.eraseIdx k }.advance resolve fails call

end FileLocks

-----------------------------------------------------------------------------------------
-- The table of each process
-----------------------------------------------------------------------------------------

/-- Between `Insert` and `Remove`. -/
def LockPhase.lists : LockPhase → Bool
  | .inserted | .denied | .closing | .unlocking | .unlocked => true
  | .opened | .refused | .removed => false

section Counts

variable {Pid Name File : Type} [DecidableEq Pid] [DecidableEq Name]

/-- 1 for a call that has the name in the table of the process, 0 for another. -/
def LockCall.lists (call : LockCall Pid Name) (pid : Pid) (name : Name) : Nat :=
  if call.pid = pid ∧ call.name = name ∧ call.phase.lists = true then 1 else 0

def HeldLock.lists (lock : HeldLock Pid Name) (pid : Pid) (name : Name) : Nat :=
  if lock.pid = pid ∧ lock.name = name then 1 else 0

/-- The calls and locks that have the name in the table of the process. -/
def FileLocks.listed (s : FileLocks Pid Name File) (pid : Pid) (name : Name) : Nat :=
  (s.calls.map (·.lists pid name)).sum + (s.held.map (·.lists pid name)).sum

/-- Each entry of a table belongs to exactly one call or lock. -/
def FileLocks.Listed (s : FileLocks Pid Name File) : Prop :=
  ∀ pid name, s.listed pid name = (s.table pid name).toNat

end Counts

namespace FileLocks

variable {Pid Name File : Type} {s : FileLocks Pid Name File} {resolve : Name → File}

@[simp]
theorem table_addCall (call : LockCall Pid Name) : (s.addCall call).table = s.table := rfl

@[simp]
theorem table_grant [DecidableEq File] (owner : Pid) (file : Name)
    : (s.grant resolve owner file).table = s.table := rfl

@[simp]
theorem table_drop [DecidableEq Pid] [DecidableEq File] (owner : Pid) (file : File)
    : (s.drop resolve owner file).table = s.table := rfl

variable [DecidableEq Pid] [DecidableEq Name]

theorem table_setTable (owner : Pid) (file : Name) (isListed : Bool) (pid : Pid) (name : Name)
    : (s.setTable owner file isListed).table pid name
      = if pid = owner ∧ name = file then isListed else s.table pid name := rfl

@[simp]
theorem listed_setTable (owner : Pid) (file : Name) (isListed : Bool) (pid : Pid) (name : Name)
    : (s.setTable owner file isListed).listed pid name = s.listed pid name := rfl

@[simp]
theorem listed_addCall (call : LockCall Pid Name) (pid : Pid) (name : Name)
    : (s.addCall call).listed pid name = call.lists pid name + s.listed pid name := by
  simp [listed, addCall, Nat.add_assoc]

variable [DecidableEq File]

@[simp]
theorem listed_drop (owner : Pid) (file : File) (pid : Pid) (name : Name)
    : (s.drop resolve owner file).listed pid name = s.listed pid name := by
  have same : (fun lock : HeldLock Pid Name => lock.lists pid name)
        ∘ (fun lock => if lock.pid = owner ∧ resolve lock.name = file
            then { lock with intact := false } else lock)
      = fun lock => lock.lists pid name := by
    funext lock
    simp only [Function.comp]
    split
    · rfl
    · rfl
  simp [listed, drop, same]

@[simp]
theorem listed_grant (owner : Pid) (file : Name) (pid : Pid) (name : Name)
    : (s.grant resolve owner file).listed pid name
      = (if owner = pid ∧ file = name then 1 else 0) + s.listed pid name := by
  simp [listed, grant, HeldLock.lists, Nat.add_left_comm]

/-- One step of a call that was taken out keeps the tables in order. -/
theorem listed_advance {call : LockCall Pid Name} (fails : Bool)
    (before : ∀ pid name, call.lists pid name + s.listed pid name = (s.table pid name).toNat)
    : (s.advance resolve fails call).Listed := by
  obtain ⟨owner, file, phase⟩ := call
  intro pid name
  have counted := before pid name
  have swapped : (owner = pid ∧ file = name) ↔ (pid = owner ∧ name = file) :=
    and_congr eq_comm eq_comm
  cases phase with
  | opened =>
      simp only [advance]
      split
      · simpa [LockCall.lists, LockPhase.lists] using counted
      · next absent =>
          by_cases same : pid = owner ∧ name = file
          · obtain ⟨rfl, rfl⟩ := same
            simpa [LockCall.lists, LockPhase.lists, table_setTable, absent] using counted
          · simpa [LockCall.lists, LockPhase.lists, table_setTable, swapped, same]
              using counted
  | refused => simpa [advance, LockCall.lists, LockPhase.lists] using counted
  | inserted =>
      simp only [advance]
      split
      · simpa [LockCall.lists, LockPhase.lists] using counted
      · simpa [LockCall.lists, LockPhase.lists] using counted
  | denied => simpa [advance, LockCall.lists, LockPhase.lists] using counted
  | closing =>
      by_cases same : pid = owner ∧ name = file
      · obtain ⟨rfl, rfl⟩ := same
        simp only [LockCall.lists, LockPhase.lists, and_self, if_true] at counted
        have bound := Bool.toNat_le (s.table pid name)
        simp only [advance, listed_setTable, table_setTable, and_self, if_true, Bool.toNat_false]
        omega
      · simpa [advance, LockCall.lists, LockPhase.lists, table_setTable, swapped, same]
          using counted
  | unlocking => simpa [advance, LockCall.lists, LockPhase.lists] using counted
  | unlocked =>
      by_cases same : pid = owner ∧ name = file
      · obtain ⟨rfl, rfl⟩ := same
        simp only [LockCall.lists, LockPhase.lists, and_self, if_true] at counted
        simp only [advance, listed_addCall, listed_setTable, LockCall.lists, LockPhase.lists,
          table_addCall, table_setTable, and_self, if_true, Bool.false_eq_true, and_false,
          if_false, Bool.toNat_false]
        have bound := Bool.toNat_le (s.table pid name)
        omega
      · simpa [advance, LockCall.lists, LockPhase.lists, table_setTable, swapped, same]
          using counted
  | removed => simpa [advance, LockCall.lists, LockPhase.lists] using counted

-----------------------------------------------------------------------------------------
-- The kernel's locks
-----------------------------------------------------------------------------------------

/-- The process of an intact lock has the kernel's lock on the file. -/
def Owned (resolve : Name → File) (s : FileLocks Pid Name File) : Prop :=
  ∀ lock ∈ s.held, lock.intact = true → s.owner (resolve lock.name) = some lock.pid

omit [DecidableEq Name] in
/-- What a process drops is no longer intact, and nobody else is affected. -/
theorem Owned.drop (owned : s.Owned resolve) (pid : Pid) (file : File)
    : (s.drop resolve pid file).Owned resolve := by
  intro lock member intact
  obtain ⟨before, held, rfl⟩ := List.mem_map.mp member
  split at intact
  · cases intact
  · next kept =>
      have owner := owned before held intact
      rw [if_neg kept]
      simp only [FileLocks.drop]
      rw [if_neg, owner]
      rintro ⟨same, dropped⟩
      rw [owner] at dropped
      exact kept ⟨Option.some.inj dropped, same⟩

omit [DecidableEq Pid] [DecidableEq Name] in
/-- The kernel grants a lock that nobody else has. -/
theorem Owned.grant (owned : s.Owned resolve) {pid : Pid} {name : Name}
    (free : s.owner (resolve name) = none ∨ s.owner (resolve name) = some pid)
    : (s.grant resolve pid name).Owned resolve := by
  intro lock member intact
  rcases List.mem_cons.mp member with rfl | held
  · exact if_pos rfl
  · have owner := owned lock held intact
    simp only [FileLocks.grant]
    split
    · next same =>
        rw [same] at owner
        rcases free with none | own
        · simp [none] at owner
        · exact own.symm.trans owner
    · exact owner

theorem Owned.advance (owned : s.Owned resolve) (fails : Bool) (call : LockCall Pid Name)
    : (s.advance resolve fails call).Owned resolve := by
  unfold FileLocks.advance
  cases call.phase with
  | opened =>
      simp only
      split
      · exact owned
      · exact owned
  | inserted =>
      simp only
      split
      · next granted => exact owned.grant granted.2
      · exact owned
  | refused | denied | unlocking | removed => exact owned.drop call.pid (resolve call.name)
  | closing | unlocked => exact owned

/-- What one scheduler choice can be. -/
theorem step_cases {action : LockAction Pid Name} {next : FileLocks Pid Name File}
    (taken : step resolve action s = some next)
    : (∃ pid name, action = .lockFile pid name ∧ next = s.addCall ⟨pid, name, .opened⟩)
      ∨ (∃ (k : Nat) (lock : HeldLock Pid Name), s.held[k]? = some lock
          ∧ next = { s with held := s.held.eraseIdx k }.addCall
              ⟨lock.pid, lock.name, .unlocking⟩)
      ∨ (∃ (k : Nat) (fails : Bool) (call : LockCall Pid Name), s.calls[k]? = some call
          ∧ next = { s with calls := s.calls.eraseIdx k }.advance resolve fails call) := by
  cases action with
  | lockFile pid name =>
      cases taken
      exact .inl ⟨pid, name, rfl, rfl⟩
  | unlockFile k =>
      obtain ⟨lock, found, rfl⟩ := Option.map_eq_some_iff.mp taken
      exact .inr (.inl ⟨k, lock, found, rfl⟩)
  | advance k fails =>
      obtain ⟨call, found, rfl⟩ := Option.map_eq_some_iff.mp taken
      exact .inr (.inr ⟨k, fails, call, found, rfl⟩)

/-- Tables and kernel locks are in order. -/
def Sound (resolve : Name → File) (s : FileLocks Pid Name File) : Prop :=
  s.Listed ∧ s.Owned resolve

omit [DecidableEq File] in
theorem init_sound (resolve : Name → File) : (init : FileLocks Pid Name File).Sound resolve :=
  ⟨fun _ _ => rfl, fun _ member => by cases member⟩

theorem Sound.step (action : LockAction Pid Name) (before after : FileLocks Pid Name File)
    (sound : before.Sound resolve) (taken : FileLocks.step resolve action before = some after)
    : after.Sound resolve := by
  obtain ⟨listed, owned⟩ := sound
  rcases step_cases taken with ⟨pid, name, _, rfl⟩ | ⟨k, lock, found, rfl⟩
    | ⟨k, fails, call, found, rfl⟩
  · refine ⟨fun p n => ?_, owned⟩
    simpa [LockCall.lists, LockPhase.lists] using listed p n
  · refine ⟨fun p n => ?_, fun other member => owned other (List.mem_of_mem_eraseIdx member)⟩
    have moved := sum_map_eraseIdx (HeldLock.lists · p n) found
    have counted := listed p n
    have same : (LockCall.mk lock.pid lock.name .unlocking).lists p n = lock.lists p n := by
      simp [LockCall.lists, LockPhase.lists, HeldLock.lists]
    simp only [FileLocks.listed, moved] at counted
    rw [listed_addCall, same, table_addCall]
    simp only [FileLocks.listed]
    omega
  · have others : Owned resolve { before with calls := before.calls.eraseIdx k } := owned
    refine ⟨listed_advance fails fun p n => ?_, others.advance fails call⟩
    have moved := sum_map_eraseIdx (LockCall.lists · p n) found
    have counted := listed p n
    simp only [FileLocks.listed, moved] at counted
    simp only [FileLocks.listed]
    omega

/-- Over every interleaving of `LockFile` and `UnlockFile` in any number of processes: a
process never has two locks under one name, and two processes have locks on one file only
when one of them has meanwhile unlocked or closed another descriptor of the file.
-/
theorem held_exclusive (reachable : Reachable (FileLocks.step resolve) init s)
    : (∀ pid name,
        s.held.countP (fun lock => decide (lock.pid = pid ∧ lock.name = name)) ≤ 1)
      ∧ ∀ first ∈ s.held, ∀ second ∈ s.held, resolve first.name = resolve second.name
        → first.pid ≠ second.pid → first.intact = false ∨ second.intact = false := by
  obtain ⟨listed, owned⟩ := reachable.invariant (Sound resolve) (init_sound resolve) Sound.step
  constructor
  · intro pid name
    have counted := listed pid name
    have bound := Bool.toNat_le (s.table pid name)
    rw [← sum_map_ite]
    simp only [FileLocks.listed, HeldLock.lists] at counted
    omega
  · intro first firstHeld second secondHeld same other
    by_contra both
    simp only [not_or, Bool.not_eq_false] at both
    have firstOwns := owned first firstHeld both.1
    have secondOwns := owned second secondHeld both.2
    rw [same, secondOwns] at firstOwns
    exact other (Option.some.inj firstOwns).symm

/-- A second `LockFile` of process 1 fails and closes its descriptor; process 2 then gets the
lock that process 1 still holds.
-/
theorem held_exclusive_lost
    : ∃ s : FileLocks Nat Nat Nat,
        execute (FileLocks.step id)
          [.lockFile 1 7, .advance 0 false, .advance 0 false, .lockFile 1 7, .advance 0 false,
            .advance 0 false, .lockFile 2 7, .advance 0 false, .advance 0 false] init = some s
        ∧ s.held = [⟨2, 7, true⟩, ⟨1, 7, false⟩]
        ∧ s.held.countP (fun lock => decide (lock.pid = 1 ∧ lock.name = 7)) ≤ 1 := by
  have executed : ∃ s : FileLocks Nat Nat Nat,
      execute (FileLocks.step id)
        [.lockFile 1 7, .advance 0 false, .advance 0 false, .lockFile 1 7, .advance 0 false,
          .advance 0 false, .lockFile 2 7, .advance 0 false, .advance 0 false] init = some s
      ∧ s.held = [⟨2, 7, true⟩, ⟨1, 7, false⟩] := ⟨_, rfl, rfl⟩
  obtain ⟨s, ran, held⟩ := executed
  exact ⟨s, ran, held, (held_exclusive ⟨_, ran⟩).1 1 7⟩

end FileLocks

-----------------------------------------------------------------------------------------
-- One descriptor at a time
-----------------------------------------------------------------------------------------

section Descriptors

variable {Pid Name File : Type} [DecidableEq Pid] [DecidableEq File] (resolve : Name → File)

/-- 1 for a call of the process on the file, 0 for another. -/
def LockCall.uses (call : LockCall Pid Name) (pid : Pid) (file : File) : Nat :=
  if call.pid = pid ∧ resolve call.name = file then 1 else 0

def HeldLock.uses (lock : HeldLock Pid Name) (pid : Pid) (file : File) : Nat :=
  if lock.pid = pid ∧ resolve lock.name = file then 1 else 0

/-- The descriptors of the file that the process has open. -/
def FileLocks.uses (s : FileLocks Pid Name File) (pid : Pid) (file : File) : Nat :=
  (s.calls.map (LockCall.uses resolve · pid file)).sum
    + (s.held.map (HeldLock.uses resolve · pid file)).sum

variable [DecidableEq Name]

/-- The steps of processes that call `LockFile` only for files they have not open. -/
def FileLocks.singleStep (action : LockAction Pid Name) (s : FileLocks Pid Name File)
    : Option (FileLocks Pid Name File) :=
  match action with
  | .lockFile pid name =>
      if s.uses resolve pid (resolve name) = 0 then s.step resolve action else none
  | .unlockFile _ | .advance _ _ => s.step resolve action

end Descriptors

namespace FileLocks

variable {Pid Name File : Type} [DecidableEq Pid] [DecidableEq Name] [DecidableEq File]
  {resolve : Name → File} {s : FileLocks Pid Name File}

/-- No process has a file open twice, and every lock is intact. -/
structure Single (resolve : Name → File) (s : FileLocks Pid Name File) : Prop where
  once : ∀ pid file, s.uses resolve pid file ≤ 1
  intact : ∀ lock ∈ s.held, lock.intact = true
  owned : s.Owned resolve

omit [DecidableEq Name] in
theorem uses_addCall (call : LockCall Pid Name) (pid : Pid) (file : File)
    : (s.addCall call).uses resolve pid file
      = call.uses resolve pid file + s.uses resolve pid file := by
  simp [uses, addCall, Nat.add_assoc]

omit [DecidableEq Name] in
/-- A drop by a process without a lock on the file changes no lock. -/
theorem held_drop {pid : Pid} {file : File} (unused : s.uses resolve pid file = 0)
    : (s.drop resolve pid file).held = s.held := by
  have others : ∀ lock ∈ s.held, ¬ (lock.pid = pid ∧ resolve lock.name = file) := by
    intro lock member same
    have counted : (s.held.map (HeldLock.uses resolve · pid file)).sum = 0 := by
      simp only [uses] at unused
      omega
    rw [List.sum_eq_zero_iff] at counted
    have zero := counted _ (List.mem_map.mpr ⟨lock, member, rfl⟩)
    simp [HeldLock.uses, same] at zero
  refine (List.map_congr_left ?_).trans (List.map_id s.held)
  intro lock member
  exact if_neg (others lock member)

omit [DecidableEq Name] in
theorem uses_drop {pid : Pid} {file : File} (unused : s.uses resolve pid file = 0) (p : Pid)
    (f : File)
    : (s.drop resolve pid file).uses resolve p f = s.uses resolve p f := by
  simp only [uses, held_drop unused]
  rfl

/-- One step of the only call of its process on its file. -/
theorem single_advance {call : LockCall Pid Name} (fails : Bool)
    (once : ∀ pid file, call.uses resolve pid file + s.uses resolve pid file ≤ 1)
    (intact : ∀ lock ∈ s.held, lock.intact = true) (owned : s.Owned resolve)
    : (s.advance resolve fails call).Single resolve := by
  obtain ⟨pid, name, phase⟩ := call
  have unused : s.uses resolve pid (resolve name) = 0 := by
    have bound := once pid (resolve name)
    simp only [LockCall.uses, and_self, if_true] at bound
    omega
  have dropped := owned.drop pid (resolve name)
  have dropUses := uses_drop unused
  have dropIntact : ∀ lock ∈ (s.drop resolve pid (resolve name)).held, lock.intact = true := by
    rw [held_drop unused]
    exact intact
  have ends {t : FileLocks Pid Name File} (same : ∀ p f, t.uses resolve p f = s.uses resolve p f)
      (tIntact : ∀ lock ∈ t.held, lock.intact = true) (tOwned : t.Owned resolve)
      : t.Single resolve :=
    ⟨fun p f => by have bound := once p f; rw [same]; omega, tIntact, tOwned⟩
  have continues {t : FileLocks Pid Name File} (next : LockPhase)
      (same : ∀ p f, t.uses resolve p f = s.uses resolve p f)
      (tIntact : ∀ lock ∈ t.held, lock.intact = true) (tOwned : t.Owned resolve)
      : (t.addCall ⟨pid, name, next⟩).Single resolve :=
    ⟨fun p f => by rw [uses_addCall, same]; exact once p f, tIntact, tOwned⟩
  cases phase with
  | opened =>
      simp only [advance]
      split
      · exact continues .refused (fun _ _ => rfl) intact owned
      · exact continues .inserted (fun _ _ => rfl) intact owned
  | refused => exact ends dropUses dropIntact dropped
  | inserted =>
      simp only [advance]
      split
      · next granted =>
          refine ⟨fun p f => ?_, ?_, owned.grant granted.2⟩
          · have bound := once p f
            have counted : (s.grant resolve pid name).uses resolve p f
                = (LockCall.mk pid name .inserted).uses resolve p f + s.uses resolve p f := by
              simp [uses, grant, HeldLock.uses, LockCall.uses, Nat.add_left_comm]
            omega
          · intro lock member
            rcases List.mem_cons.mp member with rfl | held
            · rfl
            · exact intact lock held
      · exact continues .denied (fun _ _ => rfl) intact owned
  | denied => exact continues .closing dropUses dropIntact dropped
  | closing => exact ends (fun _ _ => rfl) intact owned
  | unlocking => exact continues .unlocked dropUses dropIntact dropped
  | unlocked => exact continues .removed (fun _ _ => rfl) intact owned
  | removed => exact ends dropUses dropIntact dropped

theorem singleStep_cases {action : LockAction Pid Name} {next : FileLocks Pid Name File}
    (taken : singleStep resolve action s = some next)
    : step resolve action s = some next
      ∧ ∀ pid name, action = .lockFile pid name → s.uses resolve pid (resolve name) = 0 := by
  cases action with
  | lockFile pid name =>
      simp only [singleStep] at taken
      split at taken
      · next unused =>
          refine ⟨taken, ?_⟩
          intro p n same
          cases same
          exact unused
      · cases taken
  | unlockFile k => exact ⟨taken, fun _ _ same => by cases same⟩
  | advance k fails => exact ⟨taken, fun _ _ same => by cases same⟩

theorem Single.step (action : LockAction Pid Name) (before after : FileLocks Pid Name File)
    (single : before.Single resolve)
    (taken : singleStep resolve action before = some after)
    : after.Single resolve := by
  obtain ⟨taken, unused⟩ := singleStep_cases taken
  rcases step_cases taken with ⟨pid, name, isLock, rfl⟩ | ⟨k, lock, found, rfl⟩
    | ⟨k, fails, call, found, rfl⟩
  · refine ⟨fun p f => ?_, single.intact, single.owned⟩
    have bound := single.once p f
    rw [uses_addCall]
    by_cases same : pid = p ∧ resolve name = f
    · obtain ⟨rfl, rfl⟩ := same
      simp [LockCall.uses, unused pid name isLock]
    · simpa [LockCall.uses, same] using bound
  · have fewer {other : HeldLock Pid Name} (member : other ∈ before.held.eraseIdx k) :=
      List.mem_of_mem_eraseIdx member
    refine ⟨fun p f => ?_, fun other member => single.intact other (fewer member),
      fun other member => single.owned other (fewer member)⟩
    have bound := single.once p f
    have moved := sum_map_eraseIdx (HeldLock.uses resolve · p f) found
    have same : (LockCall.mk lock.pid lock.name .unlocking).uses resolve p f
        = lock.uses resolve p f := rfl
    simp only [uses, moved] at bound
    rw [uses_addCall, same]
    simp only [uses]
    omega
  · have others : Owned resolve { before with calls := before.calls.eraseIdx k } := single.owned
    refine single_advance fails (fun p f => ?_) single.intact others
    have bound := single.once p f
    have moved := sum_map_eraseIdx (LockCall.uses resolve · p f) found
    simp only [uses, moved] at bound
    simp only [uses]
    omega

/-- When no process calls `LockFile` for a file it has open, the locks exclude one another:
over every interleaving at most one lock on each file is held by all processes together.
-/
theorem held_exclusive_of_single (reachable : Reachable (singleStep resolve) init s)
    (file : File)
    : s.held.countP (fun lock => decide (resolve lock.name = file)) ≤ 1 := by
  have initial : (init : FileLocks Pid Name File).Single resolve :=
    ⟨fun _ _ => Nat.zero_le _, fun _ member => (by cases member),
      fun _ member => (by cases member)⟩
  have single := reachable.invariant (Single resolve) initial Single.step
  by_cases locked : ∃ lock ∈ s.held, resolve lock.name = file
  · obtain ⟨first, firstHeld, firstFile⟩ := locked
    have firstOwns := single.owned first firstHeld (single.intact first firstHeld)
    have same : s.held.countP (fun lock => decide (resolve lock.name = file))
        = s.held.countP (fun lock => decide (lock.pid = first.pid ∧ resolve lock.name = file)) := by
      apply List.countP_congr
      intro lock member
      have owns := single.owned lock member (single.intact lock member)
      simp only [decide_eq_true_eq]
      refine ⟨fun here => ⟨?_, here⟩, fun both => both.2⟩
      rw [here, ← firstFile, firstOwns] at owns
      exact (Option.some.inj owns).symm
    have bound := single.once first.pid file
    simp only [uses, HeldLock.uses] at bound
    rw [same, ← sum_map_ite]
    omega
  · have none : s.held.countP (fun lock => decide (resolve lock.name = file)) = 0 := by
      rw [List.countP_eq_zero]
      intro lock member here
      exact locked ⟨lock, member, by simpa using here⟩
    omega

/-- Two processes want one file: the second is denied, and gets it after the unlock. -/
theorem held_exclusive_of_single_handover
    : ∃ s : FileLocks Nat Nat Nat,
        execute (singleStep id)
          [.lockFile 1 7, .advance 0 false, .advance 0 false, .lockFile 2 7, .advance 0 false,
            .advance 0 false, .unlockFile 0, .advance 1 false, .advance 0 false,
            .advance 0 false, .advance 0 false, .advance 0 false, .lockFile 2 7,
            .advance 0 false, .advance 0 false] init = some s
        ∧ s.held = [⟨2, 7, true⟩]
        ∧ s.held.countP (fun lock => decide (id lock.name = 7)) ≤ 1 := by
  have executed : ∃ s : FileLocks Nat Nat Nat,
      execute (singleStep id)
        [.lockFile 1 7, .advance 0 false, .advance 0 false, .lockFile 2 7, .advance 0 false,
          .advance 0 false, .unlockFile 0, .advance 1 false, .advance 0 false,
          .advance 0 false, .advance 0 false, .advance 0 false, .lockFile 2 7,
          .advance 0 false, .advance 0 false] init = some s
      ∧ s.held = [⟨2, 7, true⟩] := ⟨_, rfl, rfl⟩
  obtain ⟨s, ran, held⟩ := executed
  exact ⟨s, ran, held, held_exclusive_of_single ⟨_, ran⟩ 7⟩

end FileLocks

end PMKVLab.Env
