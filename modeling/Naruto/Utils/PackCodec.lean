import Naruto.Utils.Pack

/-!
# Packing and unpacking messages

`Pack::serialize` has three overloads: a message into a buffer, a message into an
output stream, and raw bytes into a buffer. They lay out the same packet. Of the two
overloads of `Pack::deSerialize` the one on a buffer reads words; the one on a pointer
converts single bytes, so it finds only the low bytes of the length and the type.

The protobuf library is a parameter.
-/

namespace Naruto.Utils

open Naruto.Theory

/-- What the program uses of the protobuf library for one class of messages. Serializing has
the size that was announced, and parsing gives back what was serialized. -/
structure Protobuf (M : Type*) where
  byteSizeLong : M → Nat
  serialize : M → List UInt8
  parse : List UInt8 → M
  sized : ∀ msg, byteSizeLong msg = (serialize msg).length
  parse_serialize : ∀ msg, parse (serialize msg) = msg

variable {M : Type*} (proto : Protobuf M)

/-- `Bytes::putMessage(message, type)`. The array that the message is serialised to
begins at the write position. -/
def Bytes.putMessage (pack : Bytes) (msg : M) (type : UInt16) : Option Bytes := do
  let bodySize := UInt32.ofNat (proto.byteSizeLong msg)
  let packSize := 8 + bodySize
  let pack ← pack.putInt packSize
  let pack ← pack.putShort 0
  let pack ← pack.putShort type
  let stop := pack.wpos + bodySize
  let buf := if pack.size < stop then resize pack.buf stop.toNat else pack.buf
  let body := proto.serialize msg
  if pack.wpos.toNat + body.length ≤ buf.length then
    some { pack with
      buf := buf.take pack.wpos.toNat ++ body ++ buf.drop (pack.wpos.toNat + body.length)
      wpos := stop }
  else none

namespace Pack

/-- `serialize(msg, type, pack)`. -/
def serializeMessage (msg : M) (type : UInt16) (pack : Bytes) : Option Bytes := pack.putMessage proto msg type

/-- `serialize(msg, type, out)`: the contents of the stream afterwards. -/
def serializeStream (msg : M) (type : UInt16) (out : List UInt8) : List UInt8 :=
  let bodySize := UInt32.ofNat (proto.byteSizeLong msg)
  let packSize := 8 + bodySize
  out ++ leBytes 4 packSize.toNat ++ leBytes 2 (0 : UInt16).toNat ++ leBytes 2 type.toNat ++ proto.serialize msg

/-- `deSerialize(pack, msg)`: the type, and the bytes given to `ParseFromArray`. Nothing
when these do not lie in the buffer. -/
def deSerialize (pack : Bytes) : Option (UInt16 × List UInt8) :=
  let len := UInt32.ofNat (pack.readAt 4 0)
  let type := UInt16.ofNat (pack.readAt 2 6)
  let size := (len - 8).toNat
  if 8 + size ≤ pack.buf.length then some (type, (pack.buf.drop 8).take size) else none

/-- `deSerialize(data, n, msg)`: `(uint32_t)data[0]` and `(uint16_t)data[6]` are single
bytes. The length `n` is not looked at. -/
def deSerializeData (data : List UInt8) : Option (UInt16 × List UInt8) := do
  let len := (← data[0]?).toUInt32
  let type := (← data[6]?).toUInt16
  let size := (len - 8).toNat
  if 8 + size ≤ data.length then some (type, (data.drop 8).take size) else none

/-- What a caller has after `deSerialize`: the type, the bytes parsed, and the message. -/
def received (unpacked : Option (UInt16 × List UInt8)) : Option (UInt16 × List UInt8 × M) :=
  unpacked.map fun u => (u.1, u.2, proto.parse u.2)

/-- A message packed with a type: there is one byte string that the three overloads
append to whatever is there, and both overloads on it return the type and parse
exactly the message's body, which gives the message. -/
def Agrees (msg : M) (type : UInt16) : Prop :=
  ∃ bytes : List UInt8,
    (∀ (buf : List UInt8) (r : Nat), buf.length + bytes.length < 2 ^ 32 →
      serializeMessage proto msg type (Bytes.filled buf r) = some (Bytes.filled (buf ++ bytes) r) ∧
      serializeTo (proto.serialize msg) type (Bytes.filled buf r) = some (Bytes.filled (buf ++ bytes) r)) ∧
    (∀ out, serializeStream proto msg type out = out ++ bytes) ∧
    received proto (deSerialize (Bytes.filled bytes 0)) = some (type, proto.serialize msg, msg) ∧
    received proto (deSerializeData bytes) = some (type, proto.serialize msg, msg)

variable {proto}

/-- The packet of a message. -/
def ofMessage (proto : Protobuf M) (msg : M) (type : UInt16) (fits : 8 + (proto.serialize msg).length < 2 ^ 32) : Pack :=
  ⟨0, type, proto.serialize msg, fits⟩

/-- The message overload writes what the raw one writes: its array write is an append. The
buffer was made longer by the counted size before. -/
theorem serializeMessage_filled (msg : M) (type : UInt16) (fits : 8 + (proto.serialize msg).length < 2 ^ 32)
    (buf : List UInt8) (r : Nat) (room : buf.length + (8 + (proto.serialize msg).length) < 2 ^ 32) :
    serializeMessage proto msg type (Bytes.filled buf r) =
      some (Bytes.filled (buf ++ (ofMessage proto msg type fits).serialize) r) := by
  have packSize := packSize_toNat fits
  have sizeWord := Bytes.append_filled buf (leBytes 4 (8 + (proto.serialize msg).length)) r
    (by rw [leBytes_length]; omega)
  have flagWord := Bytes.append_filled (buf ++ leBytes 4 (8 + (proto.serialize msg).length))
    (leBytes 2 (0 : UInt16).toNat) r (by simp only [List.length_append, leBytes_length]; omega)
  have typeWord := Bytes.append_filled
    (buf ++ leBytes 4 (8 + (proto.serialize msg).length) ++ leBytes 2 (0 : UInt16).toNat) (leBytes 2 type.toNat) r
    (by simp only [List.length_append, leBytes_length]; omega)
  have body := Bytes.append_filled
    (buf ++ leBytes 4 (8 + (proto.serialize msg).length) ++ leBytes 2 (0 : UInt16).toNat ++ leBytes 2 type.toNat)
    (proto.serialize msg) r (by simp only [List.length_append, leBytes_length]; omega)
  rw [Bytes.append] at body
  simp only [serializeMessage, Bytes.putMessage, Bytes.putInt, Bytes.putShort, proto.sized, packSize, sizeWord, flagWord,
    typeWord, Option.bind_eq_bind, Option.bind_some]
  rw [body]
  simp [serialize, head, size, ofMessage]

/-- The stream overload writes the packet. -/
theorem serializeStream_eq (msg : M) (type : UInt16) (fits : 8 + (proto.serialize msg).length < 2 ^ 32)
    (out : List UInt8) :
    serializeStream proto msg type out = out ++ (ofMessage proto msg type fits).serialize := by
  have whole : 8 + UInt32.ofNat (proto.serialize msg).length = UInt32.ofNat (8 + (proto.serialize msg).length) :=
    (UInt32.ofNat_add 8 _).symm
  simp only [serializeStream, proto.sized, whole, word_toNat _ fits]
  simp only [serialize, head, size, ofMessage, List.append_assoc]

/-- The overload on a buffer gives back type and body of the packet in it. It reads the words at
their absolute positions. -/
theorem deSerialize_packet (p : Pack) : deSerialize (Bytes.filled p.serialize 0) = some (p.type, p.body) := by
  have length := p.serialize_length
  have lower := p.head_le_size
  have bound := p.size_lt
  obtain ⟨sizeWord, _, typeWord, bodyBytes⟩ := p.serialize_fields
  have len : (Bytes.filled p.serialize 0).readAt 4 0 = p.size := by
    have word := Bytes.readAt_filled p.serialize 0 4 0 (by omega) (by omega)
    rw [List.drop_zero, sizeWord] at word
    exact word
  have type : (Bytes.filled p.serialize 0).readAt 2 6 = p.type.toNat := by
    have word := Bytes.readAt_filled p.serialize 0 2 6 (by omega) (by omega)
    rw [typeWord] at word
    exact word
  have size : (UInt32.ofNat p.size - 8).toNat = p.body.length := by
    rw [UInt32.toNat_sub_of_le _ _ (by rw [UInt32.le_iff_toNat_le, word_toNat _ bound]; exact lower),
      word_toNat _ bound, Pack.size]
    exact Nat.add_sub_cancel_left 8 _
  have inside : 8 + p.body.length ≤ (Bytes.filled p.serialize 0).buf.length := Nat.le_of_eq length.symm
  have stored : (Bytes.filled p.serialize 0).buf = p.serialize := rfl
  simp only [deSerialize, len, type, size]
  rw [if_pos inside, stored, bodyBytes, List.take_length, UInt16.ofNat_toNat]

/-- The first byte of a packet, and the first byte of its type. -/
theorem head_bytes (p : Pack) :
    p.serialize[0]? = some (UInt8.ofNat p.size) ∧ p.serialize[6]? = some (UInt8.ofNat p.type.toNat) := by
  constructor
  · rw [serialize, head, leBytes]
    rfl
  · have behind : p.serialize = (leBytes 4 p.size ++ leBytes 2 p.flag.toNat) ++ (leBytes 2 p.type.toNat ++ p.body) := by
      rw [serialize, head, List.append_assoc]
    have six : (leBytes 4 p.size ++ leBytes 2 p.flag.toNat).length = 6 := by
      rw [List.length_append, leBytes_length, leBytes_length]
    rw [behind, List.getElem?_append_right (Nat.le_of_eq six), six, leBytes]
    rfl

/-- The overload on a pointer gives back type and body exactly when both the size and the type
of the packet fit in one byte. Below 256 the low bytes are the size and the type; from there on
they are smaller numbers. -/
theorem deSerializeData_iff (p : Pack) :
    deSerializeData p.serialize = some (p.type, p.body) ↔ p.size < 256 ∧ p.type.toNat < 256 := by
  have length := p.serialize_length
  have lower := p.head_le_size
  have bound := p.size_lt
  have typeBound : p.type.toNat < 65536 := p.type.toNat_lt
  have size : p.size = 8 + p.body.length := rfl
  obtain ⟨first, seventh⟩ := p.head_bytes
  have bodyBytes := p.serialize_fields.2.2.2
  have lenNat : (UInt8.ofNat p.size).toUInt32.toNat = p.size % 256 := by simp
  have typeNat : (UInt8.ofNat p.type.toNat).toUInt16.toNat = p.type.toNat % 256 := by simp
  have wrapped : ((UInt8.ofNat p.size).toUInt32 - 8).toNat = (2 ^ 32 - 8 + p.size % 256) % 2 ^ 32 := by
    rw [UInt32.toNat_sub, lenNat]
    rfl
  simp only [deSerializeData, first, seventh, Option.bind_eq_bind, Option.bind_some, bodyBytes, length]
  constructor
  · intro parsed
    split at parsed
    · rename_i inside
      obtain ⟨sameType, sameBody⟩ := Prod.mk.inj (Option.some.inj parsed)
      have types := congrArg UInt16.toNat sameType
      have bodies := congrArg List.length sameBody
      rw [typeNat] at types
      rw [List.length_take, wrapped] at bodies
      rw [wrapped] at inside
      omega
    · cases parsed
  · rintro ⟨narrow, narrowType⟩
    have whole : ((UInt8.ofNat p.size).toUInt32 - 8).toNat = p.body.length := by
      rw [wrapped]
      omega
    have sameType : (UInt8.ofNat p.type.toNat).toUInt16 = p.type := by
      apply UInt16.toNat_inj.mp
      rw [typeNat]
      omega
    rw [whole, if_pos (Nat.le_of_eq size.symm), List.take_length, sameType]

/-- A body that has come back is parsed to its message. -/
theorem received_iff (msg : M) (type : UInt16) (unpacked : Option (UInt16 × List UInt8)) :
    received proto unpacked = some (type, proto.serialize msg, msg) ↔ unpacked = some (type, proto.serialize msg) := by
  constructor
  · intro same
    obtain ⟨⟨type', body⟩, rfl, parts⟩ := Option.map_eq_some_iff.mp same
    obtain ⟨rfl, rest⟩ := Prod.mk.inj parts
    obtain ⟨rfl, _⟩ := Prod.mk.inj rest
    rfl
  · rintro rfl
    rw [received, Option.map_some, proto.parse_serialize]

/-- The three overloads of `serialize` always agree, and so does `deSerialize` on a buffer.
With `deSerialize` on a pointer they agree exactly when the size of the packet and its type
are below 256.

Proof: the overloads of `serialize` write the bytes of one packet, however they go about it.
The pointer overload of `deSerialize` reads single bytes where the header has a word of four
and one of two, so it sees the low bytes of size and type alone, which are all of them
exactly when both are below 256. -/
theorem agrees_iff {M : Type*} (proto : Protobuf M) (msg : M) (type : UInt16)
    (fits : 8 + (proto.serialize msg).length < 2 ^ 32) :
    Agrees proto msg type ↔ 8 + (proto.serialize msg).length < 256 ∧ type.toNat < 256 := by
  have unpacked := deSerializeData_iff (ofMessage proto msg type fits)
  constructor
  · rintro ⟨bytes, _, stream, _, data⟩
    have same : bytes = (ofMessage proto msg type fits).serialize := by
      have written := (stream []).symm.trans (serializeStream_eq msg type fits [])
      rwa [List.nil_append, List.nil_append] at written
    rw [received_iff, same] at data
    exact unpacked.mp data
  · intro narrow
    refine ⟨(ofMessage proto msg type fits).serialize, ?_, ?_, ?_, ?_⟩
    · intro buf r room
      rw [serialize_length] at room
      exact ⟨serializeMessage_filled msg type fits buf r room,
        serializeTo_filled type (proto.serialize msg) fits buf r room⟩
    · exact serializeStream_eq msg type fits
    · exact (received_iff msg type _).mpr (deSerialize_packet (ofMessage proto msg type fits))
    · exact (received_iff msg type _).mpr (unpacked.mpr narrow)

/-- The messages that are their own bytes. -/
def raw : Protobuf (List UInt8) := ⟨List.length, id, id, fun _ => rfl, fun _ => rfl⟩

/-- A body of three bytes, one of them zero, with a small type. -/
theorem agrees_three : 8 + (raw.serialize [1, 0, 255]).length < 2 ^ 32 ∧ Agrees raw [1, 0, 255] 7 :=
  ⟨by decide, (agrees_iff raw [1, 0, 255] 7 (by decide)).mpr ⟨by decide, by decide⟩⟩

/-- An empty body with the type of `hset`: the pointer overload returns 208. -/
theorem agrees_not : ¬ ∀ (msg : List UInt8) (type : UInt16), 8 + (raw.serialize msg).length < 2 ^ 32 →
    Agrees raw msg type := by
  intro all
  obtain ⟨bytes, _, stream, _, data⟩ := all [] 2000 (by decide)
  have written : bytes = serializeStream raw [] 2000 [] := (stream []).symm
  rw [written] at data
  exact absurd data (by decide)

end Pack

end Naruto.Utils
