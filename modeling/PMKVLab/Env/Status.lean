import PMKVLab.Library.Buffers

/-! `leveldb::Status` of `status.h` and `status.cc`: the array behind `state_`, its
constructor and its readers. Sizes are `uint32_t`, so the array can be allocated too small;
a write outside it has no result.
-/

namespace PMKVLab.Env

open PMKVLab.Library

/-- The enumeration `Code`. -/
inductive Code
  | ok
  | notFound
  | corruption
  | notSupported
  | invalidArgument
  | ioError
deriving DecidableEq, Repr

def Code.toByte : Code → UInt8
  | .ok => 0
  | .notFound => 1
  | .corruption => 2
  | .notSupported => 3
  | .invalidArgument => 4
  | .ioError => 5

/-- `state_`: null, or an array with the length of the message, the code and the message. -/
structure Status where
  state : Option (Buffer UInt8)
deriving DecidableEq, Repr

/-- The object representation of a `uint32_t`. -/
def encode32 (n : Nat) : List UInt8 :=
  [UInt8.ofNat (n % 256), UInt8.ofNat (n / 256 % 256), UInt8.ofNat (n / 65536 % 256),
    UInt8.ofNat (n / 16777216 % 256)]

def decode32 (bytes : List UInt8) : Nat :=
  bytes.foldr (fun byte rest => byte.toNat + 256 * rest) 0

namespace Status

/-- `Status::OK()`. -/
def okay : Status := ⟨none⟩

def ok (s : Status) : Bool := s.state.isNone

/-- The constructor from a code and two messages. The two bytes between the messages are
`:` and a space.
-/
def make (code : Code) (msg msg2 : List UInt8) : Option Status := do
  let len1 := msg.length % 2 ^ 32
  let len2 := msg2.length % 2 ^ 32
  let size := (len1 + if len2 = 0 then 0 else (2 + len2) % 2 ^ 32) % 2 ^ 32
  let result ← (Buffer.allocate ((size + 5) % 2 ^ 32)).store 0 (encode32 size)
  let result ← result.store 4 [code.toByte]
  let result ← result.store 5 (msg.take len1)
  if len2 = 0 then return ⟨some result⟩
  else
    let result ← result.store ((5 + len1) % 2 ^ 32) [58]
    let result ← result.store ((6 + len1) % 2 ^ 32) [32]
    let result ← result.store (7 + len1) (msg2.take len2)
    return ⟨some result⟩

/-- `code()`, as the byte it casts. -/
def code (s : Status) : Option UInt8 :=
  match s.state with
  | none => some Code.ok.toByte
  | some state => (state.load 4 1).bind List.head?

/-- The `switch` of `ToString`; the code is printed as a signed `char`. -/
def typeText (code : UInt8) : List UInt8 :=
  if code = Code.ok.toByte then ascii "OK"
  else if code = Code.notFound.toByte then ascii "NotFound: "
  else if code = Code.corruption.toByte then ascii "Corruption: "
  else if code = Code.notSupported.toByte then ascii "Not implemented: "
  else if code = Code.invalidArgument.toByte then ascii "Invalid argument: "
  else if code = Code.ioError.toByte then ascii "IO error: "
  else ascii ("Unknown code(" ++ toString (Int.bmod code.toNat 256) ++ "): ")

/-- `ToString`. -/
def text (s : Status) : Option (List UInt8) :=
  match s.state with
  | none => some (ascii "OK")
  | some state => do
      let code ← s.code
      let length := decode32 (← state.load 0 4)
      let message ← state.load 5 length
      return typeText code ++ message

/-- `CopyState`, as the copy constructor and the assignment call it. -/
def copy (s : Status) : Option Status :=
  match s.state with
  | none => some s
  | some state => do
      let size := decode32 (← state.load 0 4)
      let bytes ← state.load 0 ((size + 5) % 2 ^ 32)
      let result ← (Buffer.allocate ((size + 5) % 2 ^ 32)).store 0 bytes
      return ⟨some result⟩

end Status

-----------------------------------------------------------------------------------------
-- The constructor
-----------------------------------------------------------------------------------------

theorem decode32_encode32 {n : Nat} (small : n < 2 ^ 32) : decode32 (encode32 n) = n := by
  simp only [decode32, encode32, List.foldr_cons, List.foldr_nil, UInt8.toNat_ofNat']
  omega

@[simp]
theorem length_encode32 (n : Nat) : (encode32 n).length = 4 := rfl

namespace Status

/-- The message that the array holds: both messages, with a separator when the second is
not empty.
-/
def joined (msg msg2 : List UInt8) : List UInt8 :=
  msg ++ if msg2 = [] then [] else ascii ": " ++ msg2

/-- The array of a status with the given code and message. -/
def layout (code : Code) (message : List UInt8) : Buffer UInt8 :=
  Buffer.filled (encode32 message.length ++ ([code.toByte] ++ message)) 0

variable {code : Code} {msg msg2 : List UInt8}

theorem length_joined (msg msg2 : List UInt8)
    : (joined msg msg2).length = msg.length + if msg2 = [] then 0 else 2 + msg2.length := by
  unfold joined
  split
  · simp
  · simp [ascii]
    omega

/-- The length, the code and the first message, in an array with `rest` more bytes. -/
theorem store_header (code : Code) (msg : List UInt8) (rest : Nat)
    : (Buffer.allocate (msg.length + rest + 5)).store 0 (encode32 (msg.length + rest))
        = some (Buffer.filled (encode32 (msg.length + rest)) (msg.length + rest + 1))
      ∧ (Buffer.filled (encode32 (msg.length + rest)) (msg.length + rest + 1)).store 4
          [code.toByte]
        = some (Buffer.filled (encode32 (msg.length + rest) ++ [code.toByte])
            (msg.length + rest))
      ∧ (Buffer.filled (encode32 (msg.length + rest) ++ [code.toByte])
          (msg.length + rest)).store 5 msg
        = some (Buffer.filled (encode32 (msg.length + rest) ++ [code.toByte] ++ msg) rest) := by
  refine ⟨?_, ?_, ?_⟩
  · rw [Buffer.allocate_eq_filled]
    exact Buffer.store_filled rfl (by rw [length_encode32]; omega)
  · exact Buffer.store_filled rfl (by simp; omega)
  · exact Buffer.store_filled rfl rfl

/-- The separator and the second message. -/
theorem store_second (front msg2 : List UInt8)
    : (Buffer.filled front (2 + msg2.length)).store front.length [58]
        = some (Buffer.filled (front ++ [58]) (1 + msg2.length))
      ∧ (Buffer.filled (front ++ [58]) (1 + msg2.length)).store (front.length + 1) [32]
        = some (Buffer.filled (front ++ [58] ++ [32]) msg2.length)
      ∧ (Buffer.filled (front ++ [58] ++ [32]) msg2.length).store (front.length + 2) msg2
        = some (Buffer.filled (front ++ [58] ++ [32] ++ msg2) 0) :=
  ⟨Buffer.store_filled rfl (by simp; omega), Buffer.store_filled (by simp) (by simp),
    Buffer.store_filled (by simp) rfl⟩

/-- While the whole array is smaller than 4 GiB, it is filled exactly. -/
theorem make_eq (fits : (joined msg msg2).length + 5 < 2 ^ 32)
    : make code msg msg2 = some ⟨some (layout code (joined msg msg2))⟩ := by
  rw [length_joined] at fits
  have len1 : msg.length % 2 ^ 32 = msg.length := Nat.mod_eq_of_lt (by omega)
  by_cases second : msg2 = []
  · subst second
    rw [if_pos rfl] at fits
    obtain ⟨lengthStored, codeStored, textStored⟩ := store_header code msg 0
    simp only [Nat.add_zero] at lengthStored codeStored textStored fits
    have size : (msg.length + 5) % 2 ^ 32 = msg.length + 5 := Nat.mod_eq_of_lt fits
    simp only [make, List.length_nil, Nat.zero_mod, if_true, Nat.add_zero, len1, size,
      List.take_length, lengthStored, codeStored, textStored, Option.bind_eq_bind,
      Option.bind_some, Option.pure_def]
    simp [layout, joined]
  · rw [if_neg second] at fits
    have len2 : msg2.length % 2 ^ 32 = msg2.length := Nat.mod_eq_of_lt (by omega)
    have nonzero : msg2.length ≠ 0 := by simpa using second
    obtain ⟨lengthStored, codeStored, textStored⟩ := store_header code msg (2 + msg2.length)
    obtain ⟨colonStored, spaceStored, secondStored⟩ := store_second
      (encode32 (msg.length + (2 + msg2.length)) ++ [code.toByte] ++ msg) msg2
    have behind : (encode32 (msg.length + (2 + msg2.length)) ++ [code.toByte] ++ msg).length
        = 5 + msg.length := by
      simp
      omega
    rw [behind] at colonStored spaceStored secondStored
    have size : (msg.length + (2 + msg2.length)) % 2 ^ 32 = msg.length + (2 + msg2.length) :=
      Nat.mod_eq_of_lt (by omega)
    have whole : (msg.length + (2 + msg2.length) + 5) % 2 ^ 32
        = msg.length + (2 + msg2.length) + 5 := Nat.mod_eq_of_lt fits
    have separator : (2 + msg2.length) % 2 ^ 32 = 2 + msg2.length := Nat.mod_eq_of_lt (by omega)
    have colon : (5 + msg.length) % 2 ^ 32 = 5 + msg.length := Nat.mod_eq_of_lt (by omega)
    have space : (6 + msg.length) % 2 ^ 32 = 5 + msg.length + 1 := by
      rw [Nat.mod_eq_of_lt (by omega)]
      omega
    have start : 7 + msg.length = 5 + msg.length + 2 := by omega
    simp only [make, len1, len2, nonzero, if_false, separator, size, whole, colon, space, start,
      List.take_length, lengthStored, codeStored, textStored, colonStored, spaceStored,
      secondStored, Option.bind_eq_bind, Option.bind_some, Option.pure_def]
    rw [layout, length_joined, if_neg second]
    simp [joined, second, ascii]

/-- The constructor only stays inside its array when that is smaller than 4 GiB: the last
write ends where the message does, and the size is a `uint32_t`.
-/
theorem fits_of_make {s : Status} (made : make code msg msg2 = some s)
    (msgShort : msg.length < 2 ^ 32) (msg2Short : msg2.length < 2 ^ 32)
    : (joined msg msg2).length + 5 < 2 ^ 32 := by
  have len1 : msg.length % 2 ^ 32 = msg.length := Nat.mod_eq_of_lt msgShort
  have len2 : msg2.length % 2 ^ 32 = msg2.length := Nat.mod_eq_of_lt msg2Short
  rw [length_joined]
  simp only [make, len1, len2, List.take_length] at made
  generalize (msg.length + _) % 2 ^ 32 = size at made
  have wrapped : (size + 5) % 2 ^ 32 < 2 ^ 32 := Nat.mod_lt _ (by decide)
  obtain ⟨first, stored1, made⟩ := Option.bind_eq_some_iff.mp made
  obtain ⟨second, stored2, made⟩ := Option.bind_eq_some_iff.mp made
  obtain ⟨third, stored3, made⟩ := Option.bind_eq_some_iff.mp made
  have in1 := Buffer.inside_of_store stored1
  have in2 := Buffer.inside_of_store stored2
  have in3 := Buffer.inside_of_store stored3
  rw [Buffer.length_allocate] at in1
  by_cases empty : msg2 = []
  · rw [if_pos empty]
    omega
  · have nonzero : msg2.length ≠ 0 := by simpa using empty
    rw [if_neg empty]
    rw [if_neg nonzero] at made
    obtain ⟨fourth, stored4, made⟩ := Option.bind_eq_some_iff.mp made
    obtain ⟨fifth, stored5, made⟩ := Option.bind_eq_some_iff.mp made
    obtain ⟨sixth, stored6, _⟩ := Option.bind_eq_some_iff.mp made
    have in4 := Buffer.inside_of_store stored4
    have in5 := Buffer.inside_of_store stored5
    have in6 := Buffer.inside_of_store stored6
    omega

/-- What the readers find in a filled array. -/
theorem readers_layout (code : Code) {message : List UInt8}
    (fits : message.length + 5 < 2 ^ 32)
    : (Status.mk (some (layout code message))).code = some code.toByte
      ∧ (Status.mk (some (layout code message))).text = some (typeText code.toByte ++ message)
      ∧ (Status.mk (some (layout code message))).copy
        = some ⟨some (layout code message)⟩ := by
  have lengthRead : (layout code message).load 0 4 = some (encode32 message.length) :=
    @Buffer.load_filled _ [] (encode32 message.length) _ 0 0 4 rfl rfl
  have codeRead : (layout code message).load 4 1 = some [code.toByte] :=
    Buffer.load_filled _ _ _ rfl rfl
  have messageRead : (layout code message).load 5 message.length = some message := by
    have all := @Buffer.load_filled _ (encode32 message.length ++ [code.toByte]) message [] 0 5
      message.length rfl rfl
    simpa [layout] using all
  have size : (message.length + 5) % 2 ^ 32 = message.length + 5 := Nat.mod_eq_of_lt fits
  have wholeRead : (layout code message).load 0 (message.length + 5)
      = some (encode32 message.length ++ ([code.toByte] ++ message)) := by
    have all := @Buffer.load_filled _ [] (encode32 message.length ++ ([code.toByte] ++ message))
      [] 0 0 (message.length + 5) rfl (by simp; omega)
    simpa [layout] using all
  have copied : (Buffer.allocate (message.length + 5)).store 0
      (encode32 message.length ++ ([code.toByte] ++ message)) = some (layout code message) := by
    rw [Buffer.allocate_eq_filled]
    exact Buffer.store_filled rfl (by simp; omega)
  have decoded := decode32_encode32 (show message.length < 2 ^ 32 by omega)
  refine ⟨?_, ?_, ?_⟩
  · simp [Status.code, codeRead]
  · simp [text, Status.code, codeRead, lengthRead, decoded, messageRead]
  · simp only [copy, lengthRead, decoded, size, wholeRead, copied, Option.bind_eq_bind,
      Option.bind_some, Option.pure_def]

/-- The constructor stays inside the array it allocates exactly when length, code and
message together are smaller than 4 GiB. The status then has its code, prints its kind and
both messages, and its copies are equal to it.
-/
theorem make_roundTrip (code : Code) {msg msg2 : List UInt8} (msgShort : msg.length < 2 ^ 32)
    (msg2Short : msg2.length < 2 ^ 32)
    : ((make code msg msg2).isSome = true ↔ (joined msg msg2).length + 5 < 2 ^ 32)
      ∧ ∀ s, make code msg msg2 = some s
        → s.code = some code.toByte
          ∧ s.text = some (typeText code.toByte ++ joined msg msg2)
          ∧ s.copy = some s := by
  have inside {s : Status} (made : make code msg msg2 = some s) :=
    fits_of_make made msgShort msg2Short
  refine ⟨⟨?_, ?_⟩, ?_⟩
  · intro isSome
    obtain ⟨s, made⟩ := Option.isSome_iff_exists.mp isSome
    exact inside made
  · intro fits
    rw [make_eq fits]
    rfl
  · intro s made
    have fits := inside made
    rw [make_eq fits] at made
    cases made
    exact readers_layout code fits

theorem make_roundTrip_notFound
    : (make .notFound (ascii "db") (ascii "gone")).isSome = true
      ∧ (make .notFound (ascii "db") (ascii "gone")).bind text
        = some (ascii "NotFound: db: gone") := by
  obtain ⟨inside, reads⟩ := @make_roundTrip .notFound (ascii "db") (ascii "gone") (by decide)
    (by decide)
  have isSome := inside.mpr (by decide)
  obtain ⟨s, made⟩ := Option.isSome_iff_exists.mp isSome
  refine ⟨isSome, ?_⟩
  rw [made, Option.bind_some, (reads s made).2.1]
  rfl

end Status

-----------------------------------------------------------------------------------------
-- Errors of system calls
-----------------------------------------------------------------------------------------

/-- The values of `errno` that the environment distinguishes. -/
inductive Errno
  | enoent
  | eintr
  | einval
  | other (code : Nat)
deriving DecidableEq, Repr

/-- `PosixError`; `strerror` is the C library's. -/
def posixError (strerror : Errno → List UInt8) (context : List UInt8) (errNumber : Errno)
    : Option Status :=
  if errNumber = .enoent then Status.make .notFound context (strerror errNumber)
  else Status.make .ioError context (strerror errNumber)

end PMKVLab.Env
