import Naruto.Theory.LittleEndian

/-!
# The byte buffer

`Bytes` is the growing buffer with a write and a read position that every
packet passes through. Both positions are `uint32_t` and wrap; a read outside
the stored bytes yields zero and still moves the read position, and a write is
an unchecked copy after the buffer has been resized, so a write position that
has wrapped makes the copy leave the storage. That last case is undefined and
is modelled by `none`.
-/

namespace Naruto.Utils

open Naruto.Theory

/-- A number below 4 GiB survives the conversion to `uint32_t`. -/
theorem word_toNat (n : Nat) (bound : n < 2 ^ 32) : (UInt32.ofNat n).toNat = n :=
  UInt32.toNat_ofNat_of_lt' bound

/-- `Bytes`: the stored bytes with the two cursors. -/
structure Bytes where
  wpos : UInt32
  rpos : UInt32
  buf : List UInt8
deriving DecidableEq, Repr

namespace Bytes

/-- The buffer after `clear()`. -/
def cleared : Bytes := ⟨0, 0, []⟩

/-- `size()`: the length of the storage as `uint32_t`. -/
def size (b : Bytes) : UInt32 := UInt32.ofNat b.buf.length

/-- `bytesRemaining()`: an unsigned 32-bit difference. -/
def bytesRemaining (b : Bytes) : UInt32 := b.size - b.rpos

/-- `read<T>(index)`: zero when the word does not lie inside the storage. The
sum in the test is a `size_t` and does not wrap. -/
def readAt (b : Bytes) (width : Nat) (index : UInt32) : Nat :=
  if index.toNat + width ≤ b.buf.length then leNat ((b.buf.drop index.toNat).take width) else 0

/-- The move of the read position that every relative read makes. -/
def advance (b : Bytes) (n : UInt32) : Bytes := { b with rpos := b.rpos + n }

/-- Relative `get()`, one byte. -/
def get (b : Bytes) : UInt8 × Bytes := (UInt8.ofNat (b.readAt 1 b.rpos), b.advance 1)

/-- Relative `getShort()`. -/
def getShort (b : Bytes) : UInt16 × Bytes := (UInt16.ofNat (b.readAt 2 b.rpos), b.advance 2)

/-- Relative `getInt()`. -/
def getInt (b : Bytes) : UInt32 × Bytes := (UInt32.ofNat (b.readAt 4 b.rpos), b.advance 4)

/-- `getBytes(buf, len)`: `len` relative byte reads, each one position behind the
last. -/
def getBytes (len : UInt32) (b : Bytes) : List UInt8 × Bytes :=
  ((List.range len.toNat).map fun i => UInt8.ofNat (b.readAt 1 (b.rpos + UInt32.ofNat i)), b.advance len)

/-- `buf.resize(n)`: cut, or filled up with zeros. -/
def resize (buf : List UInt8) (n : Nat) : List UInt8 := buf.take n ++ List.replicate (n - buf.length) 0

/-- `append<T>`: grow to `wpos + s` when that is larger, computed in 32 bits,
then copy the bytes to `wpos`. A copy that ends outside the storage has no
defined outcome. -/
def append (b : Bytes) (data : List UInt8) : Option Bytes :=
  let stop := b.wpos + UInt32.ofNat data.length
  let buf := if b.size < stop then resize b.buf stop.toNat else b.buf
  if b.wpos.toNat + data.length ≤ buf.length then
    some { b with
      buf := buf.take b.wpos.toNat ++ data ++ buf.drop (b.wpos.toNat + data.length)
      wpos := stop }
  else none

/-- `putInt(value)`. -/
def putInt (b : Bytes) (value : UInt32) : Option Bytes := b.append (leBytes 4 value.toNat)

/-- `putShort(value)`. -/
def putShort (b : Bytes) (value : UInt16) : Option Bytes := b.append (leBytes 2 value.toNat)

/-- `putLong(value)`. -/
def putLong (b : Bytes) (value : UInt64) : Option Bytes := b.append (leBytes 8 value.toNat)

/-- `putBytes(b, len)`: one appended byte after another. -/
def putBytes (b : Bytes) (data : List UInt8) : Option Bytes := data.foldlM (fun b byte => b.append [byte]) b

/-- `put(src)`: the whole contents of another buffer, byte by byte. -/
def put (b src : Bytes) : Option Bytes := b.putBytes (src.buf.take src.size.toNat)

/-- The buffer holding `buf` with the read position at `r` and the write position
behind the last byte. -/
def filled (buf : List UInt8) (r : Nat) : Bytes := ⟨UInt32.ofNat buf.length, UInt32.ofNat r, buf⟩

/-- A cleared buffer is one that is filled with nothing. -/
theorem cleared_eq : cleared = filled [] 0 := rfl

/-- The read position of a filled buffer, when it lies inside the storage. -/
theorem filled_rpos (buf : List UInt8) (r : Nat) (fits : buf.length < 2 ^ 32) (inside : r ≤ buf.length) :
    (filled buf r).rpos.toNat = r :=
  word_toNat r (Nat.lt_of_le_of_lt inside fits)

/-- An append to a filled buffer with room puts the bytes behind the stored ones. The buffer is
made longer first, and the new places take the bytes. -/
theorem append_filled (buf data : List UInt8) (r : Nat) (room : buf.length + data.length < 2 ^ 32) :
    (filled buf r).append data = some (filled (buf ++ data) r) := by
  have start : (filled buf r).wpos.toNat = buf.length := word_toNat _ (by omega)
  have stop : (filled buf r).wpos + UInt32.ofNat data.length = UInt32.ofNat (buf ++ data).length := by
    rw [List.length_append, UInt32.ofNat_add]
    rfl
  have stopNat : (UInt32.ofNat (buf ++ data).length).toNat = buf.length + data.length := by
    rw [List.length_append]
    exact word_toNat _ room
  have before : (filled buf r).size.toNat = buf.length := start
  have grown : (if (filled buf r).size < UInt32.ofNat (buf ++ data).length then
      resize buf (buf.length + data.length) else buf) = buf ++ List.replicate data.length 0 := by
    cases data with
    | nil => simp [resize]
    | cons byte rest =>
      have grow : (filled buf r).size < UInt32.ofNat (buf ++ byte :: rest).length := by
        rw [UInt32.lt_iff_toNat_lt, before, stopNat]
        exact Nat.lt_add_of_pos_right (Nat.succ_pos _)
      have kept : buf.take (buf.length + (byte :: rest).length) = buf :=
        List.take_of_length_le (Nat.le_add_right _ _)
      rw [if_pos grow, resize, kept, Nat.add_sub_cancel_left]
  have storage : (filled buf r).buf = buf := rfl
  have behind : (buf ++ List.replicate data.length 0).drop (buf.length + data.length) = [] :=
    List.drop_of_length_le (by simp)
  unfold append
  simp only [stop, start, stopNat, storage, grown, behind, List.take_left, List.append_nil]
  rw [if_pos (by simp)]
  rfl

/-- The byte that would bring the storage to 4 GiB is copied out of bounds:
the wrapped end position suppresses the resize. -/
theorem append_overflows (buf : List UInt8) (byte : UInt8) (r : Nat) (full : buf.length + 1 = 2 ^ 32) :
    (filled buf r).append [byte] = none := by
  have start : (filled buf r).wpos.toNat = buf.length := word_toNat _ (by omega)
  have stop : (filled buf r).wpos + UInt32.ofNat [byte].length = 0 := by
    apply UInt32.toNat_inj.mp
    rw [UInt32.toNat_add, start, List.length_singleton]
    simp [full]
  have kept : ¬ (filled buf r).size < 0 := by
    rw [UInt32.lt_iff_toNat_lt]
    exact Nat.not_lt_zero _
  have storage : (filled buf r).buf = buf := rfl
  have outside : ¬ buf.length + [byte].length ≤ buf.length := by simp
  unfold append
  simp only [stop, kept, ↓reduceIte, start, storage, outside]

/-- Byte-wise writing to a filled buffer with room appends the whole list. The
induction is on the list; each byte leaves a filled buffer for the next. -/
theorem putBytes_filled (buf data : List UInt8) (r : Nat) (room : buf.length + data.length < 2 ^ 32) :
    (filled buf r).putBytes data = some (filled (buf ++ data) r) := by
  induction data generalizing buf with
  | nil => rw [List.append_nil]; rfl
  | cons byte rest ih =>
    simp only [List.length_cons] at room
    have first := append_filled buf [byte] r (by rw [List.length_singleton]; omega)
    have later := ih (buf ++ [byte]) (by simp only [List.length_append, List.length_singleton]; omega)
    rw [putBytes, List.foldlM_cons, first]
    exact later.trans (by rw [List.append_assoc, List.singleton_append])

/-- Writing a list that does not fit below 4 GiB ends in the undefined copy. By induction on the
bytes: the first that would be one too many wraps the position. -/
theorem putBytes_overflows (buf data : List UInt8) (r : Nat) (fits : buf.length < 2 ^ 32)
    (full : 2 ^ 32 ≤ buf.length + data.length) : (filled buf r).putBytes data = none := by
  induction data generalizing buf with
  | nil =>
    simp only [List.length_nil] at full
    omega
  | cons byte rest ih =>
    rw [putBytes, List.foldlM_cons]
    by_cases last : buf.length + 1 = 2 ^ 32
    · rw [append_overflows buf byte r last]
      rfl
    · rw [append_filled buf [byte] r (by rw [List.length_singleton]; omega)]
      refine ih _ ?_ ?_
      · simp only [List.length_append, List.length_singleton]
        omega
      · simp only [List.length_append, List.length_cons, List.length_nil] at full ⊢
        omega

/-- With the read position inside the storage, what remains is the distance to
the end. -/
theorem bytesRemaining_filled (buf : List UInt8) (r : Nat) (fits : buf.length < 2 ^ 32)
    (inside : r ≤ buf.length) : (filled buf r).bytesRemaining.toNat = buf.length - r := by
  have size : (filled buf r).size.toNat = buf.length := word_toNat _ fits
  have position := filled_rpos buf r fits inside
  rw [bytesRemaining, UInt32.toNat_sub_of_le _ _ (by rw [UInt32.le_iff_toNat_le, size, position]; exact inside),
    size, position]

/-- The read position of a filled buffer moves like a natural number. -/
theorem advance_filled (buf : List UInt8) (r n : Nat) :
    (filled buf r).advance (UInt32.ofNat n) = filled buf (r + n) := by
  simp [advance, filled, UInt32.ofNat_add]

/-- A word read from inside the storage is the number its bytes denote. -/
theorem readAt_filled (buf : List UInt8) (r width index : Nat) (fits : buf.length < 2 ^ 32)
    (inside : index + width ≤ buf.length) :
    (filled buf r).readAt width (UInt32.ofNat index) = leNat ((buf.drop index).take width) := by
  have place : (UInt32.ofNat index).toNat = index := word_toNat _ (by omega)
  rw [readAt, place]
  exact if_pos inside

/-- A word that does not lie inside the storage reads as zero. -/
theorem readAt_outside (buf : List UInt8) (r width index : Nat) (bound : index < 2 ^ 32)
    (outside : buf.length < index + width) : (filled buf r).readAt width (UInt32.ofNat index) = 0 := by
  have place : (UInt32.ofNat index).toNat = index := word_toNat _ bound
  rw [readAt, place]
  exact if_neg (Nat.not_le.mpr outside)

/-- Inside the storage `getBytes` returns the contiguous slice at the read
position. -/
theorem getBytes_filled (buf : List UInt8) (r len : Nat) (fits : buf.length < 2 ^ 32)
    (inside : r + len ≤ buf.length) :
    getBytes (UInt32.ofNat len) (filled buf r) = ((buf.drop r).take len, filled buf (r + len)) := by
  have count : (UInt32.ofNat len).toNat = len := word_toNat _ (by omega)
  have bytes : (List.range len).map (fun i => UInt8.ofNat ((filled buf r).readAt 1
      ((filled buf r).rpos + UInt32.ofNat i))) = (buf.drop r).take len := by
    apply List.ext_getElem
    · rw [List.length_map, List.length_range, List.length_take, List.length_drop]
      omega
    · intro i left right
      have before : i < len := by simpa using left
      have here : r + i < buf.length := by omega
      have position : (filled buf r).rpos + UInt32.ofNat i = UInt32.ofNat (r + i) :=
        (UInt32.ofNat_add r i).symm
      simp only [List.getElem_map, List.getElem_range, List.getElem_take, List.getElem_drop]
      rw [position, readAt_filled buf r 1 _ fits here, List.drop_eq_getElem_cons here,
        List.take_succ_cons, List.take_zero, leNat, leNat, Nat.mul_zero, Nat.add_zero,
        UInt8.ofNat_toNat]
  rw [getBytes, count, bytes, advance_filled]

end Bytes

end Naruto.Utils
