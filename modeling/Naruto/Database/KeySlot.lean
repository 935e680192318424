import Naruto.Database.Buckets
import Naruto.Utils.Checksum

/-!
# The slot of a key

`Buckets::hash` hands the size of a key to `crc16`, which takes an `int`. For a key of less
than 2 GiB the slot is the standard one, the bit-by-bit CRC modulo the number of slots.
The size of a longer key does not fit.
-/

namespace Naruto.Database

open Naruto.Utils Naruto.Utils.Crc

/-- The size of a string as an `int`. -/
def intSize (s : Str) : Int := (BitVec.ofNat 32 s.length).toInt

/-- `Buckets::hash` with the conversion of the size, for a signed and an unsigned `char`. -/
def hashChar (signed : Bool) (key : Str) : Nat := (crc16Len signed key (intSize key)).toNat % slotsSize

/-- Below 2 GiB the size is kept. -/
theorem intSize_short (s : Str) (short : s.length < 2 ^ 31) : intSize s = s.length := by
  have bound : 2 * (BitVec.ofNat 32 s.length).toNat < 2 ^ 32 := by
    rw [BitVec.toNat_ofNat]
    omega
  rw [intSize, BitVec.toInt_eq_toNat_of_lt bound, BitVec.toNat_ofNat]
  omega

/-- The checksums are the bit-by-bit ones and the slot of a key is the standard one, where the
size of the string is an `int`.

Proof: a table entry is what eight single-bit moves make of its index, for all 256 entries of
both tables, and moving a register is linear. So one step by the table is eight steps by the
polynomial, for any width, and the string follows by induction. The `char` that is promoted
before the lookup keeps its low byte, which is all that the index has. -/
theorem checksums_standard (signed : Bool) (seed : UInt64) (s : Str) :
    (checksum seed s).toBitVec = bitwise64 seed.toBitVec s ∧
      (s.length < 2 ^ 31 → (crc16Len signed s (intSize s)).toBitVec = bitwise16 s ∧
        hashChar signed s = (bitwise16 s).toNat % slotsSize ∧ hashChar signed s = hash s) := by
  refine ⟨checksum_eq seed s, fun short => ?_⟩
  have size := intSize_short s short
  have bits : (crc16Len signed s (intSize s)).toBitVec = bitwise16 s := by
    rw [size, crc16Len_eq, Int.toNat_natCast, List.take_length]
  refine ⟨bits, ?_, ?_⟩
  · rw [hashChar, ← bits]
    rfl
  · rw [hashChar, size, crc16Len_length, hash]

/-- The nine digits that checksums are tried on. -/
theorem checksums_standard_digits :
    (checksum 0 [49, 50, 51, 52, 53, 54, 55, 56, 57]).toBitVec =
        bitwise64 0 [49, 50, 51, 52, 53, 54, 55, 56, 57] ∧
      (crc16Len true [49, 50, 51, 52, 53, 54, 55, 56, 57] (intSize [49, 50, 51, 52, 53, 54, 55, 56, 57])).toBitVec =
        bitwise16 [49, 50, 51, 52, 53, 54, 55, 56, 57] ∧
      bitwise16 [49, 50, 51, 52, 53, 54, 55, 56, 57] = 0x31c3#16 :=
  have standard := checksums_standard true 0 [49, 50, 51, 52, 53, 54, 55, 56, 57]
  ⟨standard.1, (standard.2 (by decide)).1, by decide +kernel⟩

/-- Zero bytes leave a zero register alone, and a last byte 1 makes it the polynomial. -/
theorem bitwise16_zeros (n : Nat) : bitwise16 (List.replicate n 0 ++ [1]) = 0x1021#16 := by
  have zeros : ∀ n, (List.replicate n 0).foldl (crc16Step true) 0 = 0 := by
    intro n
    induction n with
    | zero => rfl
    | succ n ih =>
      have step : crc16Step true 0 0 = 0 := by decide +kernel
      rw [List.replicate_succ, List.foldl_cons, step, ih]
  have whole := crc16Len_eq true (List.replicate n 0 ++ [1]) (List.replicate n 0 ++ [1] : Str).length
  rw [Int.toNat_natCast, List.take_length] at whole
  rw [← whole, crc16Len, Int.toNat_natCast, List.take_length, List.foldl_append, zeros]
  decide +kernel

/-- A key of 2 GiB: its size is a negative `int`, and `crc16` takes no step. -/
theorem checksums_not_standard : ¬ ∀ (signed : Bool) (seed : UInt64) (s : Str),
    (checksum seed s).toBitVec = bitwise64 seed.toBitVec s ∧
      (crc16Len signed s (intSize s)).toBitVec = bitwise16 s ∧
      hashChar signed s = (bitwise16 s).toNat % slotsSize := by
  intro always
  obtain ⟨_, bits, _⟩ := always true 0 (List.replicate (2 ^ 31 - 1) 0 ++ [1])
  have length : (List.replicate (2 ^ 31 - 1) 0 ++ [1] : Str).length = 2 ^ 31 := by
    rw [List.length_append, List.length_replicate, List.length_singleton]
    rfl
  have negative : (BitVec.ofNat 32 (2 ^ 31)).toInt.toNat = 0 := by decide
  rw [bitwise16_zeros, intSize, length, crc16Len, negative, List.take_zero] at bits
  exact absurd bits (by decide)

end Naruto.Database
