import Naruto.Theory.LittleEndian
import Naruto.Theory.TracedMemory
import Naruto.Utils.Crc

/-!
# The random identifier

`genRandomID` fills its memory with random bytes, or with a seed when there are none, and replaces
them by hexadecimal digits. The counter of the loop is behind the last digit then, and the zero that
ends the string is written one place further on: behind the memory that has been allocated. Between
the digits and the zero there is a byte that nothing has written.
-/

namespace Naruto.Utils.RandomID

open Naruto.Theory

/-- `charset`. -/
def charset : Str := "0123456789abcdef".toList.map Char.toUInt8

/-- What `genRandomID` finds: the bytes that can be read from `/dev/urandom`, if it opens, `getpid()`,
the time in milliseconds, and what `rand()` returns in each pass. -/
structure Source where
  urandom : Option (List UInt8)
  pid : BitVec 32
  millisecs : BitVec 64
  rand : Nat → BitVec 32

/-- The argument of `malloc`. -/
def allocated (len : BitVec 32) : Nat := (len + 1#32).toNat

/-- `fread(p, len, 1, fp)`, and the number of items that it returns. -/
def fread (len : BitVec 32) (stream : List UInt8) (p : Traced UInt8) : Traced UInt8 × Nat :=
  (p.copy 0 (stream.take len.toNat), if len ≠ 0#32 ∧ len.toNat ≤ stream.length then 1 else 0)

/-- The memory with `x` and `l` of the fallback. -/
structure Seeding where
  p : Traced UInt8
  x : Nat
  l : BitVec 32

/-- The `memcpy` of a field, if there is room for it. -/
def Seeding.add (s : Seeding) (field : List UInt8) : Seeding :=
  if field.length ≤ s.l.toNat then ⟨s.p.copy s.x field, s.x + field.length, s.l - BitVec.ofNat 32 field.length⟩
  else s

/-- The fallback: the process, the time, and `rand()`. The process and the time are copied over
the memory as far as there is room, and every byte is mixed with a `rand()` then. -/
def fallback (len : BitVec 32) (source : Source) (p : Traced UInt8) : Traced UInt8 :=
  let tvSec := source.millisecs.sdiv 1000#64
  let tvUsec := source.millisecs.srem 1000#64 * 1000#64
  let s : Seeding := ⟨p, 0, len⟩
  -- a `pid_t` has four bytes, and the fields of a `timeval` have eight
  let s := s.add (leBytes 4 source.pid.toNat)
  let s := s.add (leBytes 8 tvUsec.toNat)
  let s := s.add (leBytes 8 tvSec.toNat)
  (Traced.alter (fun j byte => UInt8.ofBitVec ((byte.toBitVec.setWidth 32 ^^^ source.rand j).setWidth 8))
    len.toNat 0 s.p).1

/-- The memory before the digits are put into it. -/
def fill (len : BitVec 32) (source : Source) (p : Traced UInt8) : Traced UInt8 :=
  match source.urandom with
  | none => fallback len source p
  | some stream =>
    let (p, items) := fread len stream p
    if items = 0 then fallback len source p else p

/-- The low four bits of a byte are a place in the character set. -/
theorem nibble_lt (byte : UInt8) : (byte &&& 0x0F).toNat < charset.length := by
  have digits : charset.length = 16 := by decide
  rw [UInt8.toNat_and, digits]
  exact Nat.lt_succ_of_le Nat.and_le_right

/-- `charset[byte & 0x0F]`. -/
def digit (byte : UInt8) : UInt8 := charset.get ⟨(byte &&& 0x0F).toNat, nibble_lt byte⟩

/-- What `genRandomID` returns, and the places of its memory that it writes. -/
structure Generated where
  str : Str
  written : List Nat

/-- `genRandomID`, with what its memory, and what is behind that, contains. The string is read from
the memory up to the first zero; there is one where `p[j+1]` is written. -/
def genRandomID (len : BitVec 32) (source : Source) (memory : Nat → UInt8) : Generated :=
  let p := fill len source ⟨memory, []⟩
  let (p, j) := Traced.alter (fun _ byte => digit byte) len.toNat 0 p
  let terminator := (BitVec.ofNat 32 j + 1#32).toNat
  let p := p.write terminator 0
  ⟨Traced.upTo 0 p.cell ⟨terminator, Function.update_self terminator 0 _⟩, p.written⟩

/-- An identifier of a length. -/
structure IsID (len : BitVec 32) (str : Str) : Prop where
  length : str.length = len.toNat
  digits : ∀ c ∈ str, c ∈ charset

/-- What is generated should be an identifier, and nothing should be written outside the memory. -/
structure Generated.Sound (len : BitVec 32) (generated : Generated) : Prop where
  id : IsID len generated.str
  inside : ∀ place ∈ generated.written, place < allocated len

variable {len : BitVec 32} {source : Source} {memory : Nat → UInt8}

/-- The fields that have been added lie below a bound, and so does what is left. -/
structure Seeding.Fits (bound : Nat) (p : Traced UInt8) (s : Seeding) : Prop where
  below : Traced.Below bound p s.p
  room : s.x + s.l.toNat ≤ bound

/-- Adding a field leaves the seeding fitting: the field is added only when there is room for it. -/
theorem Seeding.Fits.add {bound : Nat} {p : Traced UInt8} {s : Seeding} (fits : s.Fits bound p) (field : List UInt8) :
    (s.add field).Fits bound p := by
  have room := fits.room
  rw [Seeding.add]
  split
  · rename_i enough
    have size : (BitVec.ofNat 32 field.length).toNat = field.length :=
      Nat.mod_eq_of_lt (Nat.lt_of_le_of_lt enough s.l.isLt)
    have within : BitVec.ofNat 32 field.length ≤ s.l := by
      rw [BitVec.le_def, size]
      exact enough
    have left : (s.l - BitVec.ofNat 32 field.length).toNat = s.l.toNat - field.length := by
      rw [BitVec.toNat_sub_of_le within, size]
    constructor
    · exact fits.below.trans (Traced.Below.copy s.p (by omega))
    · dsimp only
      rw [left]
      omega
  · exact fits

/-- The fallback writes below the length only. -/
theorem fallback_below (len : BitVec 32) (source : Source) (p : Traced UInt8) :
    Traced.Below len.toNat p (fallback len source p) := by
  have start : Seeding.Fits len.toNat p ⟨p, 0, len⟩ := ⟨.refl p, by simp⟩
  exact (((start.add _).add _).add _).below.trans (Traced.Below.alter _ _ (by simp))

/-- The memory is filled below its last byte only, whatever there is to read. `fread` is asked
for `len` bytes, and the other fillings count as far. -/
theorem fill_below (len : BitVec 32) (source : Source) (p : Traced UInt8) :
    Traced.Below len.toNat p (fill len source p) := by
  unfold fill
  split
  · exact fallback_below len source p
  · rename_i stream _
    have read : Traced.Below len.toNat p (fread len stream p).1 := by
      apply Traced.Below.copy
      rw [Nat.zero_add]
      exact List.length_take_le len.toNat stream
    dsimp only
    split
    · exact read.trans (fallback_below len source _)
    · exact read

/-- The digit of a byte is one of the character set. -/
theorem digit_mem (byte : UInt8) : digit byte ∈ charset := List.get_mem charset _

/-- No digit ends a string. -/
theorem charset_ne_zero : ∀ c ∈ charset, c ≠ 0 := by decide +kernel

/-- The digits are put into the same cells. -/
theorem fill_digits_below (len : BitVec 32) (source : Source) (p : Traced UInt8) :
    Traced.Below len.toNat p (Traced.alter (fun _ byte => digit byte) len.toNat 0 (fill len source p)).1 :=
  (fill_below len source p).trans (Traced.Below.alter _ _ (by simp))

/-- The memory before its string is ended: digits, and behind them what there has been. -/
structure Hexed (len : BitVec 32) (memory : Nat → UInt8) (cell : Nat → UInt8) : Prop where
  digits : ∀ place < len.toNat, cell place ∈ charset
  kept : ∀ place, len.toNat ≤ place → cell place = memory place

/-- Behind the last loop every place below the length has a digit of the character set. -/
theorem fill_hexed (len : BitVec 32) (source : Source) (memory : Nat → UInt8) :
    Hexed len memory (Traced.alter (fun _ byte => digit byte) len.toNat 0 (fill len source ⟨memory, []⟩)).1.cell := by
  constructor
  · intro place inside
    rw [Traced.alter_cell, if_pos (by omega)]
    exact digit_mem _
  · exact (fill_digits_below len source ⟨memory, []⟩).kept

/-- The counter is behind the last digit, and the zero one place further on: behind the memory. -/
theorem terminator_eq (len : BitVec 32) (p : Traced UInt8) :
    (BitVec.ofNat 32 (Traced.alter (fun _ byte => digit byte) len.toNat 0 p).2 + 1#32).toNat = allocated len := by
  rw [Traced.alter_counter, Nat.zero_add, BitVec.ofNat_toNat, BitVec.setWidth_eq, allocated]

/-- The terminator is written behind the digits, where the length plus one says in 32 bits. -/
theorem genRandomID_written (len : BitVec 32) (source : Source) (memory : Nat → UInt8) :
    allocated len ∈ (genRandomID len source memory).written :=
  List.mem_append_right _ (List.mem_singleton.mpr (terminator_eq len _).symm)

/-- The string is read from digits, what there has been behind them, and the zero. -/
theorem genRandomID_reads (len : BitVec 32) (source : Source) (memory : Nat → UInt8) :
    ∃ cell ends, Hexed len memory cell ∧
      (genRandomID len source memory).str = Traced.upTo 0 (Function.update cell (allocated len) 0) ends := by
  refine ⟨_, ⟨allocated len, Function.update_self _ _ _⟩, fill_hexed len source memory, ?_⟩
  simp only [genRandomID, Traced.write, terminator_eq]

/-- As long as the length plus one does not overflow, that many bytes are allocated. -/
theorem allocated_eq (room : len + 1#32 ≠ 0#32) : allocated len = len.toNat + 1 := by
  rw [allocated]
  bv_omega

/-- The memory of the string, when there is room for its zero: digits, the byte that nothing has
written, and the zero. -/
structure Ended (len : BitVec 32) (memory : Nat → UInt8) (cell : Nat → UInt8) : Prop where
  digits : ∀ place < len.toNat, cell place ∈ charset
  behind : cell len.toNat = memory len.toNat
  last : cell (len.toNat + 1) = 0

/-- The terminator behind digits leaves them as they are. -/
theorem Hexed.ended {cell : Nat → UInt8} (hexed : Hexed len memory cell) (room : len + 1#32 ≠ 0#32) :
    Ended len memory (Function.update cell (allocated len) 0) := by
  rw [allocated_eq room]
  have elsewhere : ∀ place ≤ len.toNat, Function.update cell (len.toNat + 1) 0 place = cell place :=
    fun place inside => Function.update_of_ne (by omega) 0 cell
  constructor
  · intro place inside
    rw [elsewhere place (Nat.le_of_lt inside)]
    exact hexed.digits place inside
  · exact (elsewhere _ (Nat.le_refl _)).trans (hexed.kept _ (Nat.le_refl _))
  · exact Function.update_self _ _ _

namespace Ended

variable {cell : Nat → UInt8} (ended : Ended len memory cell)

include ended

/-- A digit is no terminator. -/
theorem nonzero (place : Nat) (inside : place < len.toNat) : cell place ≠ 0 :=
  charset_ne_zero _ (ended.digits place inside)

/-- The digits are an identifier. -/
theorem isID : IsID len ((List.range len.toNat).map cell) := by
  constructor
  · simp
  · intro c member
    obtain ⟨place, inside, rfl⟩ := List.mem_map.mp member
    exact ended.digits place (List.mem_range.mp inside)

/-- The string goes on behind them unless there is a zero already. -/
theorem upTo_eq (ends : ∃ place, cell place = 0) :
    Traced.upTo 0 cell ends =
      (List.range len.toNat).map cell ++ if memory len.toNat = 0 then [] else [memory len.toNat] := by
  by_cases zero : memory len.toNat = 0
  · rw [if_pos zero, List.append_nil]
    exact Traced.upTo_eq ends (ended.behind.trans zero) ended.nonzero
  · have before : ∀ place < len.toNat + 1, cell place ≠ 0 := by
      intro place inside
      rcases Nat.lt_succ_iff_lt_or_eq.mp inside with digit | rfl
      · exact ended.nonzero place digit
      · rw [ended.behind]
        exact zero
    rw [if_neg zero, Traced.upTo_eq ends ended.last before, List.range_succ, List.map_append, List.map_singleton,
      ended.behind]

end Ended

/-- The string is an identifier, and the byte behind that when nothing has put a zero there. -/
theorem genRandomID_str (room : len + 1#32 ≠ 0#32) : ∃ id, IsID len id ∧
    (genRandomID len source memory).str =
      id ++ if memory len.toNat = 0 then [] else [memory len.toNat] := by
  obtain ⟨cell, ends, hexed, read⟩ := genRandomID_reads len source memory
  have ended := hexed.ended room
  exact ⟨_, ended.isID, read.trans (ended.upTo_eq ends)⟩

/-- When the size of the memory wraps around, the zero is written over the first digit. -/
theorem genRandomID_str_wraps (wraps : len + 1#32 = 0#32) : (genRandomID len source memory).str = [] := by
  obtain ⟨cell, ends, _, read⟩ := genRandomID_reads len source memory
  have first : allocated len = 0 := congrArg BitVec.toNat wraps
  have zero : Function.update cell (allocated len) 0 0 = 0 := by
    rw [first]
    exact Function.update_self 0 0 cell
  rw [read]
  exact Traced.upTo_eq ends zero fun _ inside => absurd inside (Nat.not_lt_zero _)

/-- The string is an identifier exactly when the byte behind the digits happens to be zero. Else
it is longer, and of no bytes at all when the length wraps. -/
theorem genRandomID_isID_iff : IsID len (genRandomID len source memory).str ↔
    len + 1#32 ≠ 0#32 ∧ memory len.toNat = 0 := by
  by_cases wraps : len + 1#32 = 0#32
  · constructor
    · intro id
      have length := id.length
      rw [genRandomID_str_wraps wraps, List.length_nil] at length
      bv_omega
    · exact fun room => absurd wraps room.1
  · obtain ⟨id, isID, str⟩ := @genRandomID_str len source memory wraps
    rw [str]
    by_cases zero : memory len.toNat = 0
    · simp [zero, isID, wraps]
    · have longer : ¬ IsID len (id ++ [memory len.toNat]) := by
        intro longer
        have length := longer.length
        rw [List.length_append, List.length_singleton, isID.length] at length
        omega
      simp [zero, longer]

/-- What is generated is never sound, since the zero lies outside the memory; and the string
alone is an identifier exactly when the byte behind the digits happens to be zero.

Proof: the last loop counts to the length and one more is added before the zero is written,
while the length plus one is all that is allocated. The string is read up to the first zero;
digits are none, so it ends at the byte behind them or includes it. -/
theorem genRandomID_never_sound (len : BitVec 32) (source : Source) (memory : Nat → UInt8) :
    ¬ (genRandomID len source memory).Sound len ∧
      (IsID len (genRandomID len source memory).str ↔ len + 1#32 ≠ 0#32 ∧ memory len.toNat = 0) := by
  constructor
  · intro sound
    exact Nat.lt_irrefl _ (sound.inside _ (genRandomID_written len source memory))
  · exact genRandomID_isID_iff

/-- A source of zeros, in memory that has been cleared. -/
theorem genRandomID_not_sound : ¬ ∀ (len : BitVec 32) (source : Source) (memory : Nat → UInt8),
    (genRandomID len source memory).Sound len := by
  intro sound
  have inside := (sound 40#32 ⟨some (List.replicate 40 0), 0#32, 0#64, fun _ => 0#32⟩ fun _ => 0).inside
  exact absurd (inside 41 (genRandomID_written 40#32 _ _)) (by decide)

end Naruto.Utils.RandomID
