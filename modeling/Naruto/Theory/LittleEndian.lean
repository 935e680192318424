import Mathlib.Algebra.Ring.Nat
import Mathlib.Data.List.Basic

/-!
# Little-endian words over byte lists

A word of a given width is its base-256 digits, least significant byte first.
Reading back the digits of a number gives the number modulo the width's range,
and reading is injective on lists of one length. Nothing here depends on a
particular width or on the program that frames its data with such words.
-/

namespace Naruto.Theory

/-- The `width` little-endian bytes of a number, higher digits dropped. -/
def leBytes : Nat → Nat → List UInt8
  | 0, _ => []
  | width + 1, value => UInt8.ofNat value :: leBytes width (value / 256)

/-- The number whose little-endian bytes are given. -/
def leNat : List UInt8 → Nat
  | [] => 0
  | byte :: rest => byte.toNat + 256 * leNat rest

/-- A number has as many bytes as it is given. -/
@[simp] theorem leBytes_length (width value : Nat) : (leBytes width value).length = width := by
  induction width generalizing value with
  | zero => rfl
  | succ width ih => simp [leBytes, ih]

/-- Reading the written digits loses exactly what lies above the width. -/
theorem leNat_leBytes (width value : Nat) : leNat (leBytes width value) = value % 256 ^ width := by
  induction width generalizing value with
  | zero => simp [leBytes, leNat, Nat.mod_one]
  | succ width ih =>
    have low : (UInt8.ofNat value).toNat = value % 256 := by simp
    rw [leBytes, leNat, ih, low, Nat.pow_succ', Nat.mod_mul]

/-- The bytes behind others count for more by the range of those before. -/
theorem leNat_append (low high : List UInt8) :
    leNat (low ++ high) = leNat low + 256 ^ low.length * leNat high := by
  induction low with
  | nil => simp [leNat]
  | cons byte rest ih =>
    rw [List.cons_append, leNat, leNat, ih, List.length_cons, Nat.pow_succ', Nat.mul_add, Nat.mul_assoc,
      Nat.add_assoc]

/-- A list of bytes denotes a number below the range of its length. -/
theorem leNat_lt (bytes : List UInt8) : leNat bytes < 256 ^ bytes.length := by
  induction bytes with
  | nil => decide
  | cons byte rest ih =>
    have digit : byte.toNat < 256 := byte.toNat_lt
    rw [leNat, List.length_cons, Nat.pow_succ']
    omega

/-- Byte lists of one length with the same value are the same list: the low
byte is the remainder by 256 and the quotient determines the rest. -/
theorem leNat_injective (left right : List UInt8) (width : left.length = right.length)
    (same : leNat left = leNat right) : left = right := by
  induction left generalizing right with
  | nil => exact (List.length_eq_zero_iff.mp width.symm).symm
  | cons byte rest ih =>
    cases right with
    | nil => simp at width
    | cons other tail =>
      have digit : byte.toNat < 256 := byte.toNat_lt
      have digit' : other.toNat < 256 := other.toNat_lt
      simp only [leNat] at same
      have low : byte.toNat = other.toNat := by omega
      have high : leNat rest = leNat tail := by omega
      have head : byte = other := UInt8.toNat_inj.mp low
      have tails : rest = tail := ih tail (Nat.succ.inj width) high
      rw [head, tails]

end Naruto.Theory
