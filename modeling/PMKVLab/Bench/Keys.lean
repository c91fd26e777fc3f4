import PMKVLab.Bench.Operations

/-! The key encoding of `GenerateKeyFromInt`: every byte of the buffer is written, and two
numbers share a key exactly when they agree in the bytes that fit.
-/

namespace PMKVLab.Bench

open PMKVLab.Store

/-- The number of low bytes of an index that a key holds. -/
def indexBytes (keySize : Int) : Nat := (min keySize 8).toNat

theorem littleEndian_length (v : Nat) : (littleEndian v).length = 8 := by
  simp [littleEndian]

/-- A key is the low bytes of the index, padded with '0'; the old buffer does not matter. -/
theorem generateKeyFromInt_eq {keySize : Int} (size : 0 ≤ keySize) (v : Nat) {key : Bytes}
    (length : key.length = keySize.toNat)
    : generateKeyFromInt keySize v key
      = (littleEndian v).take (indexBytes keySize)
        ++ List.replicate (keySize.toNat - indexBytes keySize) 48 := by
  have bytes : ((littleEndian v).take (indexBytes keySize)).length = indexBytes keySize := by
    rw [List.length_take, littleEndian_length, indexBytes]
    omega
  unfold generateKeyFromInt
  simp only [overwrite, List.take_zero, List.nil_append, Nat.zero_add]
  split
  · next longer =>
    have head : (min keySize 8).toNat = indexBytes keySize := rfl
    have rest : (keySize - min keySize 8).toNat = keySize.toNat - indexBytes keySize := by
      rw [indexBytes]
      omega
    rw [head, rest, List.take_left' bytes, List.length_replicate, List.drop_eq_nil_of_le,
      List.append_nil]
    simp only [List.length_append, List.length_drop, bytes, length]
    omega
  · next whole =>
    have full : indexBytes keySize = keySize.toNat := by
      rw [indexBytes]
      omega
    have head : (min keySize 8).toNat = indexBytes keySize := rfl
    rw [head, bytes, List.drop_eq_nil_of_le (by omega), full, Nat.sub_self, List.replicate_zero]

/-- A generated key fills the buffer. -/
theorem generateKeyFromInt_length {keySize : Int} (size : 0 ≤ keySize) (v : Nat) {key : Bytes}
    (length : key.length = keySize.toNat)
    : (generateKeyFromInt keySize v key).length = keySize.toNat := by
  rw [generateKeyFromInt_eq size v length, List.length_append, List.length_take,
    littleEndian_length, List.length_replicate, indexBytes]
  omega

/-- Agreement in the low bytes is agreement modulo their power of 256, by induction on the
number of bytes.
-/
theorem bytes_eq_iff (v w count : Nat)
    : (∀ place < count, v / 256 ^ place % 256 = w / 256 ^ place % 256)
      ↔ v % 256 ^ count = w % 256 ^ count := by
  induction count with
  | zero => simp [Nat.mod_one]
  | succ count ih =>
      have split (x : Nat)
          : x % 256 ^ (count + 1) = x % 256 ^ count + 256 ^ count * (x / 256 ^ count % 256) :=
        Nat.mod_pow_succ
      rw [split v, split w]
      constructor
      · intro agree
        rw [ih.mp (fun place less => agree place (by omega)), agree count (by omega)]
      · intro equal
        have positive : 0 < 256 ^ count := Nat.pow_pos (by omega)
        have low : v % 256 ^ count = w % 256 ^ count := by
          have reduced := congrArg (· % 256 ^ count) equal
          simpa [Nat.add_mul_mod_self_left] using reduced
        have high : v / 256 ^ count % 256 = w / 256 ^ count % 256 := by
          rw [low] at equal
          exact Nat.eq_of_mul_eq_mul_left positive (Nat.add_left_cancel equal)
        intro place less
        rcases Nat.lt_succ_iff_lt_or_eq.mp less with lower | last
        · exact ih.mpr low place lower
        · rw [last]
          exact high

/-- Two indices have the same key exactly when they agree in the bytes that fit. -/
theorem generateKeyFromInt_eq_iff {keySize : Int} (size : 0 ≤ keySize) (v w : Nat)
    {key other : Bytes} (length : key.length = keySize.toNat)
    (otherLength : other.length = keySize.toNat)
    : generateKeyFromInt keySize v key = generateKeyFromInt keySize w other
      ↔ v % 256 ^ indexBytes keySize = w % 256 ^ indexBytes keySize := by
  have few : indexBytes keySize ≤ 8 := by
    rw [indexBytes]
    omega
  rw [generateKeyFromInt_eq size v length, generateKeyFromInt_eq size w otherLength,
    List.append_left_inj, ← bytes_eq_iff]
  have low (x : Nat) : (littleEndian x).take (indexBytes keySize)
      = (List.range (indexBytes keySize)).map
          (fun place => UInt8.ofNat (x / 256 ^ place % 256)) := by
    rw [littleEndian, ← List.map_take, List.take_range, Nat.min_eq_left few]
  rw [low v, low w, List.map_inj_left]
  constructor
  · intro equal place less
    have bytes := congrArg UInt8.toNat (equal place (List.mem_range.mpr less))
    simpa using bytes
  · intro equal place member
    rw [equal place (List.mem_range.mp member)]

/-- The encoding of a key, for 64-bit indices and any two earlier buffers: every byte is
written, nothing of the old buffer is left, and keys collide exactly when the indices agree
in the low bytes that fit.
-/
theorem generateKeyFromInt_encoding (keySize : Int) (positive : 1 ≤ keySize) (v w : UInt64)
    (key other : Bytes) (length : key.length = keySize.toNat)
    (otherLength : other.length = keySize.toNat)
    : (generateKeyFromInt keySize v.toNat key).length = keySize.toNat
      ∧ generateKeyFromInt keySize v.toNat key = generateKeyFromInt keySize v.toNat other
      ∧ (generateKeyFromInt keySize v.toNat key = generateKeyFromInt keySize w.toNat other
        ↔ v.toNat % 256 ^ min keySize.toNat 8 = w.toNat % 256 ^ min keySize.toNat 8) := by
  have size : 0 ≤ keySize := by omega
  have fits : min keySize.toNat 8 = indexBytes keySize := by
    rw [indexBytes]
    omega
  refine ⟨generateKeyFromInt_length size v.toNat length, ?_, ?_⟩
  · exact (generateKeyFromInt_eq_iff size v.toNat v.toNat length otherLength).mpr rfl
  · rw [fits]
    exact generateKeyFromInt_eq_iff size v.toNat w.toNat length otherLength

/-- With keys of one byte the indices 1 and 257 share a key, whatever the buffer held. -/
theorem generateKeyFromInt_encoding_one_byte
    : generateKeyFromInt 1 (1 : UInt64).toNat [7] = generateKeyFromInt 1 (257 : UInt64).toNat [9] :=
  (generateKeyFromInt_encoding 1 (by decide) 1 257 [7] [9] rfl rfl).2.2.mpr (by decide)

end PMKVLab.Bench
