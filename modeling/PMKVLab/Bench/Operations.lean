import PMKVLab.Bench.Protocol
import PMKVLab.Store.Wrapper
import Mathlib.Data.Int.DivMod

/-! The loops of the benchmark: key generation, `DoWrite`, `DoRead` and `DoDelete`. Each
iteration makes one atomic call of the wrapper, so it is one step of the method.
-/

namespace PMKVLab.Bench

open PMKVLab.Store

-----------------------------------------------------------------------------------------
-- Integer conversions and keys
-----------------------------------------------------------------------------------------

/-- Conversion to a 32-bit `int`. -/
def toInt32 (value : Int) : Int := Int.bmod value (2 ^ 32)

/-- Conversion to `uint32_t`. -/
def toUInt32 (value : Int) : Nat := (value % 2 ^ 32).toNat

/-- Conversion to `uint64_t`. -/
def toUInt64 (value : Int) : Nat := (value % 2 ^ 64).toNat

/-- The object representation of a `uint64_t` on a little-endian machine. -/
def littleEndian (v : Nat) : Bytes :=
  (List.range 8).map (fun place => UInt8.ofNat (v / 256 ^ place % 256))

/-- `memcpy` or `memset` of the bytes into a buffer, from a position on. -/
def overwrite (buffer : Bytes) (pos : Nat) (bytes : Bytes) : Bytes :=
  buffer.take pos ++ bytes ++ buffer.drop (pos + bytes.length)

/-- `new char[key_size_]` throws for a negative size; the contents of the buffer are
unspecified, and zero here.
-/
def allocateKey (keySize : Int) : Option Bytes :=
  if keySize < 0 then none else some (List.replicate keySize.toNat 0)

/-- `GenerateKeyFromInt`, on the buffer left by the previous call. -/
def generateKeyFromInt (keySize : Int) (v : Nat) (key : Bytes) : Bytes :=
  let bytesToFill := min keySize 8
  let copied := overwrite key 0 ((littleEndian v).take bytesToFill.toNat)
  if keySize > bytesToFill then
    -- the rest of the key is '0'
    overwrite copied bytesToFill.toNat (List.replicate (keySize - bytesToFill).toNat 48)
  else copied

-----------------------------------------------------------------------------------------
-- The calls of the wrapper
-----------------------------------------------------------------------------------------

/-- The wrapper calls benchmarks make, each atomic on the store. `get` starts from an empty
string, as every caller does; a put may throw.
-/
structure KV (Store : Type) where
  get : Bytes → Store → Status × Bytes
  put : Bytes → Bytes → Store → Except String Status × Store
  remove : Bytes → Store → Status × Store

/-- The wrapper of `bench.cc` on an engine. -/
def wrapperKV (E : Engine) (wrapper : PMKVWrapper E) : KV E.State where
  get key state := wrapper.get key [] state
  put key value state := Harness.bench.put wrapper key value state
  remove key state := wrapper.remove key state

/-- A finite map on which no put fails; values that do not fit the caller's buffer are not
read back.
-/
def mapKV (fits : Nat → Bool) : KV Contents where
  get key contents :=
    match contents.lookup key with
    | none => (.notFound, [])
    | some value => if fits value.length then (.ok, value) else (.notFound, [])
  put key value contents := (.ok .ok, contents.insert key value)
  remove key contents :=
    (if key ∈ contents then .ok else .notFound, contents.erase key)

-----------------------------------------------------------------------------------------
-- Loops
-----------------------------------------------------------------------------------------

/-- The locals of a loop; `found` is used by reads only. -/
structure LoopState where
  thread : ThreadState
  i : Nat
  bytes : Nat
  found : Nat
  key : Bytes
deriving DecidableEq, Repr

/-- What distinguishes the three loops: the number of iterations, what happens before and
after, and the call made for a key, with the bytes and hits it adds. `none` ends the
process.
-/
structure LoopBody (Store : Type) where
  count : Int
  seq : Bool
  enter : ThreadState → ThreadState
  operation : Bytes → Store → Option (Nat × Nat × Store)
  leave : LoopState → ThreadState

/-- `seq ? (i + thread->tid * num_) : (thread->rand.Next() % FLAGS_num)`. -/
def keyIndex (flags : Flags) (bm : Benchmark) (seq : Bool) (thread : ThreadState) (i : Nat)
    : Int × ThreadState :=
  if seq then (toInt32 (i + thread.tid * bm.num), thread)
  else
    let (value, rand) := thread.rand.next
    (toInt32 (value % toUInt32 flags.num : Nat), { thread with rand := rand })

/-- The key of the next iteration, and the thread after drawing it. -/
def nextKey (flags : Flags) (bm : Benchmark) (seq : Bool) (l : LoopState)
    : Bytes × ThreadState :=
  let (k, thread) := keyIndex flags bm seq l.thread l.i
  (generateKeyFromInt bm.keySize (toUInt64 k) l.key, thread)

/-- The end of an iteration. -/
def LoopState.finishOp (l : LoopState) (key : Bytes) (thread : ThreadState)
    (bytes found : Nat)
    : LoopState where
  thread := { thread with stats := thread.stats.finishedSingleOp }
  i := l.i + 1
  bytes := l.bytes + bytes
  found := l.found + found
  key := key

section Methods

variable {Store : Type} (flags : Flags) (bm : Benchmark) (kv : KV Store)

/-- A loop as a method; `% FLAGS_num` traps when the flag is zero. -/
def forLoop (body : LoopBody Store) : Method Store where
  Local := LoopState
  thread l := l.thread
  init thread :=
    (allocateKey bm.keySize).map (fun key => ⟨body.enter thread, 0, 0, 0, key⟩)
  step _ l store :=
    if (l.i : Int) < body.count then
      if body.seq = false ∧ toUInt32 flags.num = 0 then .aborts
      else
        let (key, thread) := nextKey flags bm body.seq l
        match body.operation key store with
        | none => .aborts
        | some (bytes, found, next) => .continues (l.finishOp key thread bytes found) next
    else .returns (body.leave l) store

/-- The loop of `DoWrite`; appending a negative number of characters throws, and so does
a failing put.
-/
def writeLoop (seq : Bool) : LoopBody Store where
  count := bm.num
  seq := seq
  enter thread :=
    if bm.num ≠ flags.num then
      { thread with stats := thread.stats.addMessage ("(" ++ toString bm.num ++ " ops)") }
    else thread
  operation key store :=
    if bm.valueSize < 0 then none
    else
      match kv.put key (List.replicate bm.valueSize.toNat 88) store with
      | (.ok .ok, next) => some (bm.valueSize.toNat + key.length, 0, next)
      | _ => none
  leave l := { l.thread with stats := l.thread.stats.addBytes l.bytes }

/-- The loop of `DoRead`; `missing` is not used by the source. -/
def readLoop (seq _missing : Bool) : LoopBody Store where
  count := bm.reads
  seq := seq
  enter thread := thread
  operation key store :=
    let (status, value) := kv.get key store
    some (value.length + key.length, if status = .ok then 1 else 0, store)
  leave l :=
    let message :=
      "(" ++ toString l.found ++ " of " ++ toString bm.reads ++ " found)"
    { l.thread with stats := (l.thread.stats.addBytes l.bytes).addMessage message }

/-- The loop of `DoDelete`, which adds no bytes and ignores the status. -/
def deleteLoop (seq : Bool) : LoopBody Store where
  count := bm.num
  seq := seq
  enter thread := thread
  operation key store := some (0, 0, (kv.remove key store).2)
  leave l := l.thread

def doWrite (seq : Bool) : Method Store := forLoop flags bm (writeLoop flags bm kv seq)

def doRead (seq missing : Bool) : Method Store := forLoop flags bm (readLoop bm kv seq missing)

def doDelete (seq : Bool) : Method Store := forLoop flags bm (deleteLoop bm kv seq)

def writeSeq : Method Store := doWrite flags bm kv true
def writeRandom : Method Store := doWrite flags bm kv false
def readSeq : Method Store := doRead flags bm kv true false
def readRandom : Method Store := doRead flags bm kv false false
def readMissing : Method Store := doRead flags bm kv false true
def deleteSeq : Method Store := doDelete flags bm kv true
def deleteRandom : Method Store := doDelete flags bm kv false

end Methods

end PMKVLab.Bench
