import Naruto.Utils.Pack

/-!
# Taking packets out of a buffer

`File::loadFile` and `replicaLink::onSendIncrToSlave` share one inner loop: as
long as more than a length word is unread, read the length word, stop if the
rest of the packet has not arrived, and otherwise read flag, type and body.
The length word is consumed before the test, and a stop does not give it back.

On a buffer whose unread part begins at a packet boundary the loop takes exactly
the packets that have arrived. It then stands on the next boundary, or four
bytes behind it when more than a length word of the next packet is there.
-/

namespace Naruto.Utils

open Naruto.Theory

/-- What the callback or the message builder receives for one packet. -/
structure Call where
  flag : UInt16
  type : UInt16
  msg : List UInt8
deriving DecidableEq, Repr

/-- The call a packet stands for. -/
def Pack.call (p : Pack) : Call := ⟨p.flag, p.type, p.body⟩

/-- The part of the loop body behind the test: flag, type, then as many body
bytes as the 32-bit difference `pack_size - PACK_HEAD_LEN`. -/
def takeBody (packSize : UInt32) (bytes : Bytes) : Bytes × Call :=
  let flag := bytes.getShort.1
  let bytes := bytes.getShort.2
  let type := bytes.getShort.1
  let bytes := bytes.getShort.2
  let body := Bytes.getBytes (packSize - 8) bytes
  (body.2, ⟨flag, type, body.1⟩)

/-- One pass of the loop: the buffer afterwards, and the packet taken, or
nothing when the loop ends here. `pack_size - sizeof(pack_size)` is a 64-bit
difference. -/
def nextPack (bytes : Bytes) : Bytes × Option Call :=
  if 4 < bytes.bytesRemaining then
    let packSize := bytes.getInt.1
    let bytes := bytes.getInt.2
    if bytes.bytesRemaining.toUInt64 < packSize.toUInt64 - 4 then (bytes, none)
    else ((takeBody packSize bytes).1, some (takeBody packSize bytes).2)
  else (bytes, none)

/-- The cursor arithmetic of one packet: a length word below four never passes
the test, and one between four and seven moves the read position by itself
modulo the cursor's range. -/
theorem remaining_shrinks (size rpos word : UInt32) (unread : 4 < size - rpos)
    (arrived : ¬ (size - (rpos + 4)).toUInt64 < word.toUInt64 - 4) :
    size - (rpos + 4 + 2 + 2 + (word - 8)) < size - rpos := by
  simp only [UInt32.lt_iff_toNat_lt, UInt64.lt_iff_toNat_lt, UInt32.toNat_sub, UInt64.toNat_sub,
    UInt32.toNat_add, UInt32.toNat_toUInt64, UInt32.reduceToNat, UInt64.reduceToNat] at *
  have sizeBound := size.toNat_lt
  have rposBound := rpos.toNat_lt
  have wordBound := word.toNat_lt
  omega

/-- Every packet taken shrinks the unread part, whatever its length word says. -/
theorem nextPack_decreases (bytes : Bytes) (call : Call) (taken : (nextPack bytes).2 = some call) :
    (nextPack bytes).1.bytesRemaining < bytes.bytesRemaining := by
  unfold nextPack at taken ⊢
  split at taken
  · rename_i unread
    simp only [unread, ↓reduceIte] at taken ⊢
    split at taken
    · simp at taken
    · rename_i arrived
      simp only [arrived, ↓reduceIte]
      exact remaining_shrinks bytes.size bytes.rpos bytes.getInt.1 unread arrived
  · simp at taken

/-- The inner loop: the buffer it leaves and the packets it took, in order. -/
def packLoop (bytes : Bytes) : Bytes × List Call :=
  match _taken : nextPack bytes with
  | (bytes, none) => (bytes, [])
  | (bytes', some call) =>
    let rest := packLoop bytes'
    (rest.1, call :: rest.2)
termination_by bytes.bytesRemaining.toNat
decreasing_by
  have smaller := nextPack_decreases bytes call (by rw [_taken])
  rw [_taken] at smaller
  exact UInt32.lt_iff_toNat_lt.mp smaller

/-- The loop ends where no packet is taken. -/
theorem packLoop_stop (bytes left : Bytes) (ended : nextPack bytes = (left, none)) :
    packLoop bytes = (left, []) := by
  rw [packLoop]
  split
  · rename_i other stopped
    rw [ended] at stopped
    rw [(Prod.mk.inj stopped).1]
  · rename_i taken
    rw [ended] at taken
    simp at taken

/-- A packet taken comes before those the loop takes afterwards. -/
theorem packLoop_take (bytes left : Bytes) (call : Call) (taken : nextPack bytes = (left, some call)) :
    packLoop bytes = ((packLoop left).1, call :: (packLoop left).2) := by
  rw [packLoop]
  split
  · rename_i stopped
    rw [taken] at stopped
    simp at stopped
  · rename_i other call' took
    rw [taken] at took
    obtain ⟨rfl, same⟩ := Prod.mk.inj took
    rw [Option.some.inj same]

/-- The unread bytes of a filled buffer are the beginning of `stream`. -/
structure Reads (buf : List UInt8) (r : Nat) (stream : List UInt8) : Prop where
  fits : buf.length < 2 ^ 32
  inside : r ≤ buf.length
  unread : buf.drop r = stream.take (buf.length - r)

/-- A word inside the unread part is the word of the stream at that place. -/
theorem Reads.word {buf stream : List UInt8} {r : Nat} (reads : Reads buf r stream)
    (position width index : Nat) (inside : r + index + width ≤ buf.length) :
    (Bytes.filled buf position).readAt width (UInt32.ofNat (r + index)) =
      leNat ((stream.drop index).take width) := by
  have shorter : min width (buf.length - r - index) = width := by omega
  rw [Bytes.readAt_filled buf position width _ reads.fits inside, ← List.drop_drop, reads.unread,
    List.drop_take, List.take_take, shorter]

/-- Moving inside the unread part moves along the stream. -/
theorem Reads.advance {buf stream : List UInt8} {r : Nat} (reads : Reads buf r stream)
    (n : Nat) (inside : r + n ≤ buf.length) : Reads buf (r + n) (stream.drop n) := by
  refine ⟨reads.fits, inside, ?_⟩
  have left : buf.length - (r + n) = buf.length - r - n := by omega
  rw [← List.drop_drop, reads.unread, List.drop_take, left]

/-- The test of the loop on a filled buffer. -/
theorem remaining_test (buf : List UInt8) (r : Nat) (fits : buf.length < 2 ^ 32) (inside : r ≤ buf.length) :
    4 < (Bytes.filled buf r).bytesRemaining ↔ 4 < buf.length - r := by
  rw [UInt32.lt_iff_toNat_lt, Bytes.bytesRemaining_filled buf r fits inside]
  rfl

/-- The test for a whole packet on a filled buffer, for a length word of at least four. -/
theorem arrived_test (buf : List UInt8) (r word : Nat) (fits : buf.length < 2 ^ 32) (inside : r ≤ buf.length)
    (least : 4 ≤ word) (bound : word < 2 ^ 32) :
    (Bytes.filled buf r).bytesRemaining.toUInt64 < (UInt32.ofNat word).toUInt64 - 4 ↔
      buf.length - r < word - 4 := by
  have value : (UInt32.ofNat word).toUInt64.toNat = word := word_toNat _ bound
  have four : (4 : UInt64) ≤ (UInt32.ofNat word).toUInt64 := by
    rw [UInt64.le_iff_toNat_le, value]
    exact least
  rw [UInt64.lt_iff_toNat_lt, UInt64.toNat_sub_of_le _ _ four, value, UInt32.toNat_toUInt64,
    Bytes.bytesRemaining_filled buf r fits inside]
  rfl

/-- With at most a length word unread the loop ends without moving. -/
theorem nextPack_idle (buf : List UInt8) (r : Nat) (fits : buf.length < 2 ^ 32) (inside : r ≤ buf.length)
    (short : buf.length - r ≤ 4) : nextPack (Bytes.filled buf r) = (Bytes.filled buf r, none) := by
  have few : ¬ 4 < (Bytes.filled buf r).bytesRemaining := by
    rw [remaining_test buf r fits inside]
    omega
  rw [nextPack, if_neg few]

/-- A length word is read, and the position moves behind it. -/
theorem getInt_of_read {buf : List UInt8} {r word : Nat}
    (read : (Bytes.filled buf r).readAt 4 (UInt32.ofNat r) = word) :
    (Bytes.filled buf r).getInt = (UInt32.ofNat word, Bytes.filled buf (r + 4)) := by
  have moved : (Bytes.filled buf r).advance 4 = Bytes.filled buf (r + 4) := Bytes.advance_filled buf r 4
  rw [Bytes.getInt, moved]
  exact congrArg (fun word => (UInt32.ofNat word, Bytes.filled buf (r + 4))) read

/-- The length word of the packet at a boundary, when more than it is unread. -/
theorem boundary_word {buf stream : List UInt8} {r : Nat} (p : Pack)
    (reads : Reads buf r (p.serialize ++ stream)) (some4 : 4 < buf.length - r) :
    (Bytes.filled buf r).getInt = (UInt32.ofNat p.size, Bytes.filled buf (r + 4)) := by
  have read := reads.word r 4 0 (by omega)
  have within : 4 ≤ p.serialize.length := by
    rw [Pack.serialize_length]
    exact Nat.le_trans (by decide) p.head_le_size
  rw [Nat.add_zero, List.drop_zero, List.take_append_of_le_length within, p.serialize_fields.1] at read
  exact getInt_of_read read

/-- A length word that asks for more than is unread ends the loop, four bytes
further on. -/
theorem nextPack_stuck (buf : List UInt8) (r word : Nat) (fits : buf.length < 2 ^ 32) (inside : r ≤ buf.length)
    (some4 : 4 < buf.length - r) (read : (Bytes.filled buf r).getInt = (UInt32.ofNat word, Bytes.filled buf (r + 4)))
    (bound : word < 2 ^ 32) (short : buf.length - r < word) :
    nextPack (Bytes.filled buf r) = (Bytes.filled buf (r + 4), none) := by
  have many : 4 < (Bytes.filled buf r).bytesRemaining := (remaining_test buf r fits inside).mpr some4
  have missing : (Bytes.filled buf (r + 4)).bytesRemaining.toUInt64 < (UInt32.ofNat word).toUInt64 - 4 := by
    rw [arrived_test buf (r + 4) word fits (by omega) (by omega) bound]
    omega
  simp only [nextPack, many, ↓reduceIte, read, missing]

/-- With more than a length word of a packet unread but not all of it, the loop
ends four bytes behind the boundary. -/
theorem nextPack_torn (buf stream : List UInt8) (r : Nat) (p : Pack)
    (reads : Reads buf r (p.serialize ++ stream)) (some4 : 4 < buf.length - r)
    (torn : buf.length - r < p.size) :
    nextPack (Bytes.filled buf r) = (Bytes.filled buf (r + 4), none) :=
  nextPack_stuck buf r p.size reads.fits reads.inside some4 (boundary_word p reads some4) p.size_lt torn

/-- Flag, type and body of a packet that has arrived whole. Flag and type are read two bytes
each, and the bytes of the body are copied one by one. -/
theorem takeBody_whole (buf stream : List UInt8) (r : Nat) (p : Pack)
    (reads : Reads buf r (p.serialize ++ stream)) (arrived : p.size ≤ buf.length - r) :
    takeBody (UInt32.ofNat p.size) (Bytes.filled buf (r + 4)) =
      (Bytes.filled buf (r + p.size), p.call) := by
  have within : p.serialize.length = p.size := p.serialize_length
  have lower := p.head_le_size
  obtain ⟨_, flagWord, typeWord, bodyBytes⟩ := p.serialize_fields
  have flag : (Bytes.filled buf (r + 4)).getShort = (p.flag, Bytes.filled buf (r + 6)) := by
    have read := reads.word (r + 4) 2 4 (by omega)
    rw [List.drop_append_of_le_length (by omega),
      List.take_append_of_le_length (by rw [List.length_drop]; omega), flagWord] at read
    have moved : (Bytes.filled buf (r + 4)).advance 2 = Bytes.filled buf (r + 6) :=
      Bytes.advance_filled buf (r + 4) 2
    rw [Bytes.getShort, moved]
    exact congrArg (fun word => (word, Bytes.filled buf (r + 6)))
      ((congrArg UInt16.ofNat read).trans UInt16.ofNat_toNat)
  have type : (Bytes.filled buf (r + 6)).getShort = (p.type, Bytes.filled buf (r + 8)) := by
    have read := reads.word (r + 6) 2 6 (by omega)
    rw [List.drop_append_of_le_length (by omega),
      List.take_append_of_le_length (by rw [List.length_drop]; omega), typeWord] at read
    have moved : (Bytes.filled buf (r + 6)).advance 2 = Bytes.filled buf (r + 8) :=
      Bytes.advance_filled buf (r + 6) 2
    rw [Bytes.getShort, moved]
    exact congrArg (fun word => (word, Bytes.filled buf (r + 8)))
      ((congrArg UInt16.ofNat read).trans UInt16.ofNat_toNat)
  have bodySize : UInt32.ofNat p.size - 8 = UInt32.ofNat p.body.length := by
    rw [Pack.size, UInt32.ofNat_add, UInt32.add_comm]
    exact UInt32.add_sub_cancel _ _
  have room : r + 8 + p.body.length ≤ buf.length := by
    rw [Pack.size] at arrived
    omega
  have body : (buf.drop (r + 8)).take p.body.length = p.body := by
    rw [(reads.advance 8 (by omega)).unread, List.drop_append_of_le_length (by omega), bodyBytes,
      List.take_take, List.take_append_of_le_length (by omega), List.take_of_length_le (by omega)]
  have stop : r + 8 + p.body.length = r + p.size := by
    rw [Pack.size]
    omega
  simp only [takeBody, flag, type, bodySize, Bytes.getBytes_filled buf _ _ reads.fits room, body, stop,
    Pack.call]

/-- A packet that has arrived whole is taken with its flag, type and body, and
the read position moves to the boundary behind it. -/
theorem nextPack_whole (buf stream : List UInt8) (r : Nat) (p : Pack)
    (reads : Reads buf r (p.serialize ++ stream)) (arrived : p.size ≤ buf.length - r) :
    nextPack (Bytes.filled buf r) = (Bytes.filled buf (r + p.size), some p.call) ∧
      Reads buf (r + p.size) stream := by
  have lower := p.head_le_size
  have many : 4 < (Bytes.filled buf r).bytesRemaining :=
    (remaining_test buf r reads.fits reads.inside).mpr (by omega)
  have enough : ¬ (Bytes.filled buf (r + 4)).bytesRemaining.toUInt64 <
      (UInt32.ofNat p.size).toUInt64 - 4 := by
    rw [arrived_test buf (r + 4) p.size reads.fits (by omega) (by omega) p.size_lt]
    omega
  have behind := reads.advance p.size (by omega)
  rw [List.drop_left' p.serialize_length] at behind
  refine ⟨?_, behind⟩
  simp only [nextPack, many, ↓reduceIte, boundary_word p reads (by omega), enough,
    takeBody_whole buf stream r p reads arrived]

/-- Where the loop stops after the packets that have arrived: on the boundary,
or behind the length word of a packet that has not. -/
def stopAt (buf : List UInt8) (boundary : Nat) : Nat :=
  if 4 < buf.length - boundary then boundary + 4 else boundary

/-- From a packet boundary the loop takes exactly the packets that have arrived
whole, in order. Induction on the packets: the first is taken and the loop goes
on behind it, or it has not arrived and the loop stops. -/
theorem packLoop_spec (ps : List Pack) (buf : List UInt8) (r : Nat)
    (reads : Reads buf r (Pack.encodeAll ps))
    (enough : buf.length - r ≤ (Pack.encodeAll ps).length) :
    packLoop (Bytes.filled buf r) =
      (Bytes.filled buf
          (stopAt buf (r + (Pack.encodeAll (Pack.whole (buf.length - r) ps)).length)),
        (Pack.whole (buf.length - r) ps).map Pack.call) := by
  induction ps generalizing r with
  | nil =>
    have nothing : buf.length - r = 0 := Nat.le_zero.mp enough
    rw [packLoop_stop _ _ (nextPack_idle buf r reads.fits reads.inside (by omega))]
    simp [Pack.whole, stopAt, nothing]
  | cons p ps ih =>
    simp only [Pack.encodeAll_cons, List.length_append, Pack.serialize_length] at enough
    by_cases arrived : p.size ≤ buf.length - r
    · obtain ⟨taken, behind⟩ := nextPack_whole buf _ r p reads arrived
      have left : buf.length - (r + p.size) = buf.length - r - p.size := by omega
      rw [packLoop_take _ _ _ taken, ih _ behind (by omega)]
      simp only [left, Pack.whole, arrived, ↓reduceIte, Pack.encodeAll_cons, List.length_append,
        Pack.serialize_length, List.map_cons, Nat.add_assoc]
    · have torn : buf.length - r < p.size := Nat.not_le.mp arrived
      simp only [Pack.whole, arrived, ↓reduceIte, Pack.encodeAll_nil, List.length_nil, Nat.add_zero,
        List.map_nil, stopAt]
      by_cases some4 : 4 < buf.length - r
      · rw [packLoop_stop _ _ (nextPack_torn buf _ r p reads some4 torn), if_pos some4]
      · rw [packLoop_stop _ _ (nextPack_idle buf r reads.fits reads.inside (by omega)), if_neg some4]

/-- A length word of four passes the test with nothing behind it, and the body
size wraps: the callback would be handed 4 GiB less four bytes. -/
theorem nextPack_short (buf : List UInt8) (r : Nat) (fits : buf.length < 2 ^ 32) (inside : r ≤ buf.length)
    (some4 : 4 < buf.length - r) (word : (Bytes.filled buf r).readAt 4 (UInt32.ofNat r) = 4) :
    ∃ left call, nextPack (Bytes.filled buf r) = (left, some call) ∧ call.msg.length = 2 ^ 32 - 4 := by
  have many : 4 < (Bytes.filled buf r).bytesRemaining := (remaining_test buf r fits inside).mpr some4
  have size : (Bytes.filled buf r).getInt.1 = 4 := congrArg UInt32.ofNat word
  have passes : ¬ (Bytes.filled buf r).getInt.2.bytesRemaining.toUInt64 <
      (Bytes.filled buf r).getInt.1.toUInt64 - 4 := by
    rw [size, UInt64.lt_iff_toNat_lt]
    exact Nat.not_lt_zero _
  have length : ((takeBody (Bytes.filled buf r).getInt.1 (Bytes.filled buf r).getInt.2).2).msg.length =
      ((Bytes.filled buf r).getInt.1 - 8).toNat := by
    simp only [takeBody, Bytes.getBytes, List.length_map, List.length_range]
  have wrapped : ((Bytes.filled buf r).getInt.1 - 8).toNat = 2 ^ 32 - 4 := by
    rw [size]
    decide
  refine ⟨(takeBody (Bytes.filled buf r).getInt.1 (Bytes.filled buf r).getInt.2).1,
    (takeBody (Bytes.filled buf r).getInt.1 (Bytes.filled buf r).getInt.2).2, ?_, length.trans wrapped⟩
  simp only [nextPack, many, ↓reduceIte, passes]

end Naruto.Utils
