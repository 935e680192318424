import Naruto.Utils.Bytes

/-!
# Packets

A packet is a length word that counts itself, a flag, a type and a body, all
little-endian. Clients, replicas, the AOF and the database file exchange
nothing else. A `Pack` is a packet whose size fits its own length word.
-/

namespace Naruto.Utils

open Naruto.Theory

/-- A packet: `flag`, `type` and body bytes. The length word is the size of the
whole packet, so the body is bounded by what 32 bits can count. -/
structure Pack where
  flag : UInt16
  type : UInt16
  body : List UInt8
  fits : 8 + body.length < 2 ^ 32
deriving DecidableEq

namespace Pack

/-- `PACK_HEAD_LEN` plus the body: the value of the length word. -/
def size (p : Pack) : Nat := 8 + p.body.length

/-- The eight header bytes. -/
def head (p : Pack) : List UInt8 := leBytes 4 p.size ++ leBytes 2 p.flag.toNat ++ leBytes 2 p.type.toNat

/-- The bytes of a packet, as `Pack::serialize` and `Bytes::putMessage` lay them out. -/
def serialize (p : Pack) : List UInt8 := p.head ++ p.body

/-- The bytes of a sequence of packets. -/
def encodeAll (ps : List Pack) : List UInt8 := ps.flatMap serialize

/-- A header has eight bytes. -/
@[simp] theorem head_length (p : Pack) : p.head.length = 8 := by simp [head]

/-- A packet is as long as its length word says. -/
@[simp] theorem serialize_length (p : Pack) : p.serialize.length = p.size := by
  simp [serialize, size]

/-- No packets have no bytes. -/
@[simp] theorem encodeAll_nil : encodeAll [] = [] := rfl

/-- The bytes of packets are those of the first and of the others. -/
@[simp] theorem encodeAll_cons (p : Pack) (ps : List Pack) :
    encodeAll (p :: ps) = p.serialize ++ encodeAll ps := rfl

/-- The bytes of two lists of packets, one behind the other. -/
@[simp] theorem encodeAll_append (ps qs : List Pack) :
    encodeAll (ps ++ qs) = encodeAll ps ++ encodeAll qs := List.flatMap_append

/-- A packet is at least as long as its header, -/
theorem head_le_size (p : Pack) : 8 ≤ p.size := Nat.le_add_right 8 _

/-- and its length is a 32-bit word. -/
theorem size_lt (p : Pack) : p.size < 2 ^ 32 := p.fits

/-- The length word, the flag and the type read back from the header, and the
body behind it. -/
theorem serialize_fields (p : Pack) :
    leNat (p.serialize.take 4) = p.size ∧
      leNat ((p.serialize.drop 4).take 2) = p.flag.toNat ∧
      leNat ((p.serialize.drop 6).take 2) = p.type.toNat ∧
      p.serialize.drop 8 = p.body := by
  have sizeBytes : p.serialize.take 4 = leBytes 4 p.size := by
    rw [serialize, head, List.append_assoc, List.append_assoc, List.take_left' (by simp)]
  have flagBytes : (p.serialize.drop 4).take 2 = leBytes 2 p.flag.toNat := by
    rw [serialize, head, List.append_assoc, List.append_assoc, List.drop_left' (by simp),
      List.take_left' (by simp)]
  have typeBytes : (p.serialize.drop 6).take 2 = leBytes 2 p.type.toNat := by
    rw [serialize, head, List.append_assoc, List.drop_left' (by simp), List.take_left' (by simp)]
  have flagBound : p.flag.toNat < 65536 := p.flag.toNat_lt
  have typeBound : p.type.toNat < 65536 := p.type.toNat_lt
  have sizeBound := p.size_lt
  refine ⟨?_, ?_, ?_, ?_⟩
  · rw [sizeBytes, leNat_leBytes]
    omega
  · rw [flagBytes, leNat_leBytes]
    omega
  · rw [typeBytes, leNat_leBytes]
    omega
  · rw [serialize, List.drop_left' (by simp)]

/-- The four bytes behind the length word, taken for a length word: flag and type. -/
theorem second_word (p : Pack) (stream : List UInt8) :
    leNat (((p.serialize ++ stream).drop 4).take 4) = p.flag.toNat + 65536 * p.type.toNat := by
  have front : p.serialize.drop 4 = (leBytes 2 p.flag.toNat ++ leBytes 2 p.type.toNat) ++ p.body := by
    rw [serialize, head, List.append_assoc, List.append_assoc, List.drop_left' (by simp), List.append_assoc]
  have long : 4 ≤ p.serialize.length := by
    rw [serialize_length]
    exact Nat.le_trans (by decide) p.head_le_size
  have flagLow : p.flag.toNat % 256 ^ 2 = p.flag.toNat := Nat.mod_eq_of_lt p.flag.toNat_lt
  have typeLow : p.type.toNat % 256 ^ 2 = p.type.toNat := Nat.mod_eq_of_lt p.type.toNat_lt
  rw [List.drop_append_of_le_length long, front, List.append_assoc, List.take_left' (by simp),
    leNat_append, leNat_leBytes, leNat_leBytes, leBytes_length, flagLow, typeLow]
  rfl

/-- `Pack::serialize(msg, n, type, pack)`: header with flag zero, then the bytes. -/
def serializeTo (msg : List UInt8) (type : UInt16) (pack : Bytes) : Option Bytes := do
  let bodySize := UInt32.ofNat msg.length
  let packSize := 8 + bodySize
  let pack ← pack.putInt packSize
  let pack ← pack.putShort 0
  let pack ← pack.putShort type
  pack.putBytes msg

/-- The size of a packet that fits is computed without a carry. -/
theorem packSize_toNat {body : List UInt8} (fits : 8 + body.length < 2 ^ 32) :
    (8 + UInt32.ofNat body.length).toNat = 8 + body.length := by
  have whole : 8 + UInt32.ofNat body.length = UInt32.ofNat (8 + body.length) := (UInt32.ofNat_add 8 _).symm
  rw [whole, word_toNat _ fits]

/-- Serialising into a filled buffer with room appends exactly the packet with
flag zero. Each of the four writes leaves a filled buffer for the next. -/
theorem serializeTo_filled (type : UInt16) (msg : List UInt8) (fits : 8 + msg.length < 2 ^ 32)
    (buf : List UInt8) (r : Nat) (room : buf.length + (8 + msg.length) < 2 ^ 32) :
    serializeTo msg type (Bytes.filled buf r) =
      some (Bytes.filled (buf ++ serialize ⟨0, type, msg, fits⟩) r) := by
  have packSize := packSize_toNat fits
  have sizeWord := Bytes.append_filled buf (leBytes 4 (8 + msg.length)) r
    (by rw [leBytes_length]; omega)
  have flagWord := Bytes.append_filled (buf ++ leBytes 4 (8 + msg.length)) (leBytes 2 (0 : UInt16).toNat) r
    (by simp only [List.length_append, leBytes_length]; omega)
  have typeWord := Bytes.append_filled
    (buf ++ leBytes 4 (8 + msg.length) ++ leBytes 2 (0 : UInt16).toNat) (leBytes 2 type.toNat) r
    (by simp only [List.length_append, leBytes_length]; omega)
  have body := Bytes.putBytes_filled
    (buf ++ leBytes 4 (8 + msg.length) ++ leBytes 2 (0 : UInt16).toNat ++ leBytes 2 type.toNat) msg r
    (by simp only [List.length_append, leBytes_length]; omega)
  simp only [serializeTo, Bytes.putInt, Bytes.putShort, packSize, sizeWord, flagWord, typeWord, body,
    bind, Option.bind]
  simp [serialize, head, size]

/-- The longest run of leading packets whose bytes lie within the first `n`. -/
def whole : Nat → List Pack → List Pack
  | _, [] => []
  | n, p :: ps => if p.size ≤ n then p :: whole (n - p.size) ps else []

/-- What `whole` leaves is the next packet, which does not fit, or nothing. By induction on the
packets, with what is left of the bytes. -/
theorem whole_split (n : Nat) (ps : List Pack) :
    ∃ rest, ps = whole n ps ++ rest ∧ (encodeAll (whole n ps)).length ≤ n ∧
      ∀ p qs, rest = p :: qs → n < (encodeAll (whole n ps)).length + p.size := by
  induction ps generalizing n with
  | nil => exact ⟨[], rfl, Nat.zero_le n, fun p qs impossible => by simp at impossible⟩
  | cons p ps ih =>
    by_cases fits : p.size ≤ n
    · obtain ⟨rest, split, bound, next⟩ := ih (n - p.size)
      refine ⟨rest, ?_, ?_, ?_⟩
      · rw [whole, if_pos fits, List.cons_append, ← split]
      · rw [whole, if_pos fits, encodeAll_cons, List.length_append, serialize_length]
        omega
      · intro q qs same
        have later := next q qs same
        rw [whole, if_pos fits, encodeAll_cons, List.length_append, serialize_length]
        omega
    · refine ⟨p :: ps, by rw [whole, if_neg fits]; rfl, ?_, ?_⟩
      · rw [whole, if_neg fits]
        exact Nat.zero_le n
      · intro q qs same
        obtain ⟨rfl, rfl⟩ := List.cons.inj same
        rw [whole, if_neg fits]
        simpa using fits

/-- The packets within `m ≤ n` bytes come first among those within `n`. -/
theorem whole_append (n : Nat) (ps qs : List Pack) (room : (encodeAll ps).length ≤ n) :
    whole n (ps ++ qs) = ps ++ whole (n - (encodeAll ps).length) qs := by
  induction ps generalizing n with
  | nil => simp
  | cons p ps ih =>
    simp only [encodeAll_cons, List.length_append, serialize_length] at room
    have fits : p.size ≤ n := by omega
    rw [List.cons_append, whole, if_pos fits, ih (n - p.size) (by omega), encodeAll_cons,
      List.length_append, serialize_length, Nat.sub_sub, List.cons_append]

end Pack

end Naruto.Utils
