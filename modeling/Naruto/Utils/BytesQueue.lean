import Mathlib.Data.List.Induction
import Naruto.Theory.Runs
import Naruto.Utils.PackCodec

/-!
# The byte buffer as a queue

Relative writes of any width and relative reads of any width, in any order, from a cleared
buffer. While no read asks for more than remains and less than 4 GiB have been written,
the buffer is the bytes written so far and the number of bytes read: the reads return the
written bytes in order, and values that are read back with the widths with which they
were written are the written values.
-/

namespace Naruto.Utils.Bytes

open Naruto.Theory

/-- What a relative read returns, and what a relative write takes. -/
inductive Value
  | byte (b : UInt8)
  | short (v : UInt16)
  | int (v : UInt32)
  | long (v : UInt64)
  | bytes (data : List UInt8)
deriving DecidableEq

/-- A kind of value: its type, and the length of an array. -/
inductive Kind
  | byte
  | short
  | int
  | long
  | bytes (len : Nat)
deriving DecidableEq

/-- The kind of a value: what a reader must ask for to get it. -/
def Value.kind : Value → Kind
  | .byte _ => .byte
  | .short _ => .short
  | .int _ => .int
  | .long _ => .long
  | .bytes data => .bytes data.length

/-- The bytes of a value, as the machine stores it. -/
def Value.data : Value → List UInt8
  | .byte b => [b]
  | .short v => leBytes 2 v.toNat
  | .int v => leBytes 4 v.toNat
  | .long v => leBytes 8 v.toNat
  | .bytes data => data

/-- The relative writes and reads. `putSelf` is `put` of the buffer itself. `putMessage` writes
the whole packet of a message. -/
inductive Op (M : Type*)
  | put (b : UInt8)
  | putBytes (data : List UInt8)
  | putShort (v : UInt16)
  | putInt (v : UInt32)
  | putLong (v : UInt64)
  | putAll (src : Bytes)
  | putSelf
  | putMessage (msg : M) (type : UInt16)
  | get
  | getBytes (len : UInt32)
  | getShort
  | getInt
  | getLong

variable {M : Type*} (proto : Protobuf M)

/-- Relative `get()` of a long word. -/
def getLong (b : Bytes) : UInt64 × Bytes := (UInt64.ofNat (b.readAt 8 b.rpos), b.advance 8)

/-- `put(src)` where the source is the buffer itself: the bytes are read while it grows. -/
def putSelf (b : Bytes) : Option Bytes :=
  (List.range b.size.toNat).foldlM (fun c i => c.append [UInt8.ofNat (c.readAt 1 (UInt32.ofNat i))]) b

/-- The buffer and the values that have been read. -/
structure Reader where
  bytes : Bytes
  values : List Value
deriving DecidableEq

/-- One write or read. A write puts its bytes at the end, a read takes its width from the
front; both may be undefined. -/
def op (s : Reader) : Op M → Option Reader
  | .put b => (s.bytes.append [b]).map fun bytes => { s with bytes := bytes }
  | .putBytes data => (s.bytes.putBytes data).map fun bytes => { s with bytes := bytes }
  | .putShort v => (s.bytes.putShort v).map fun bytes => { s with bytes := bytes }
  | .putInt v => (s.bytes.putInt v).map fun bytes => { s with bytes := bytes }
  | .putLong v => (s.bytes.putLong v).map fun bytes => { s with bytes := bytes }
  | .putAll src => (s.bytes.put src).map fun bytes => { s with bytes := bytes }
  | .putSelf => s.bytes.putSelf.map fun bytes => { s with bytes := bytes }
  | .putMessage msg type => (s.bytes.putMessage proto msg type).map fun bytes => { s with bytes := bytes }
  | .get => some ⟨s.bytes.get.2, s.values ++ [.byte s.bytes.get.1]⟩
  | .getBytes len => some ⟨(s.bytes.getBytes len).2, s.values ++ [.bytes (s.bytes.getBytes len).1]⟩
  | .getShort => some ⟨s.bytes.getShort.2, s.values ++ [.short s.bytes.getShort.1]⟩
  | .getInt => some ⟨s.bytes.getInt.2, s.values ++ [.int s.bytes.getInt.1]⟩
  | .getLong => some ⟨s.bytes.getLong.2, s.values ++ [.long s.bytes.getLong.1]⟩

/-- The values that a write puts behind those written before. A message is its packet. -/
def Op.items (before : List Value) : Op M → List Value
  | .put b => [.byte b]
  | .putBytes data => [.bytes data]
  | .putShort v => [.short v]
  | .putInt v => [.int v]
  | .putLong v => [.long v]
  | .putAll src => [.bytes (src.buf.take src.size.toNat)]
  | .putSelf => before
  | .putMessage msg type =>
    [.int (8 + UInt32.ofNat (proto.byteSizeLong msg)), .short 0, .short type, .bytes (proto.serialize msg)]
  | _ => []

/-- The number of bytes that a read asks for. -/
def Op.width : Op M → Nat
  | .get => 1
  | .getBytes len => len.toNat
  | .getShort => 2
  | .getInt => 4
  | .getLong => 8
  | _ => 0

/-- The values that have been written. -/
def written (ops : List (Op M)) : List Value := ops.foldl (fun before op => before ++ op.items proto before) []

/-- The number of bytes that have been read. -/
def readCount (ops : List (Op M)) : Nat := (ops.map Op.width).sum

/-- No read beyond `bytesRemaining()`. -/
def Remaining (s : Reader) (op : Op M) : Prop := op.width ≤ s.bytes.bytesRemaining.toNat

/-- Whether enough remains for a read can be decided. -/
instance (s : Reader) (op : Op M) : Decidable (Remaining s op) := inferInstanceAs (Decidable (_ ≤ _))

variable {proto}

/-- The bytes of some values. -/
def dataOf (values : List Value) : List UInt8 := values.flatMap Value.data

/-- The bytes of values in two parts, -/
@[simp] theorem dataOf_append (front back : List Value) : dataOf (front ++ back) = dataOf front ++ dataOf back :=
  List.flatMap_append

/-- and those of one value. -/
@[simp] theorem dataOf_singleton (v : Value) : dataOf [v] = v.data := List.flatMap_singleton _ v

/-- Appending its own bytes one by one doubles a buffer. The induction is on the number of
bytes; the appended ones stand behind those still to be read. -/
theorem putSelf_filled (buf : List UInt8) (r : Nat) (room : buf.length + buf.length < 2 ^ 32) :
    (filled buf r).putSelf = some (filled (buf ++ buf) r) := by
  have short : buf.length < 2 ^ 32 := by omega
  have size : (filled buf r).size.toNat = buf.length := word_toNat _ short
  have copied : ∀ n, n ≤ buf.length → (List.range n).foldlM
      (fun (c : Bytes) i => c.append [UInt8.ofNat (c.readAt 1 (UInt32.ofNat i))]) (filled buf r) =
        some (filled (buf ++ buf.take n) r) := by
    intro n within
    induction n with
    | zero => simp
    | succ n ih =>
      have here : n < buf.length := within
      have taken : (buf.take n).length = n := List.length_take_of_le (Nat.le_of_lt here)
      have read : (filled (buf ++ buf.take n) r).readAt 1 (UInt32.ofNat n) = (buf[n]).toNat := by
        rw [readAt_filled _ _ 1 n (by rw [List.length_append]; omega) (by rw [List.length_append]; omega),
          List.drop_append_of_le_length (Nat.le_of_lt here), List.drop_eq_getElem_cons here, List.cons_append,
          List.take_succ_cons, List.take_zero]
        rfl
      rw [List.range_succ, List.foldlM_append, ih (Nat.le_of_lt here)]
      have added := append_filled (buf ++ buf.take n) [buf[n]] r (by simp [taken]; omega)
      rw [List.append_assoc, List.take_append_getElem here] at added
      simp [read, added]
  rw [putSelf, size, copied _ (Nat.le_refl _), List.take_length]

/-- The values before are in the buffer, and as many bytes as have been read are those of
the values read. -/
structure Holds (before : List Value) (count : Nat) (s : Reader) : Prop where
  buffer : s.bytes = filled (dataOf before) count
  fits : (dataOf before).length < 2 ^ 32
  inside : count ≤ (dataOf before).length
  reads : dataOf s.values = (dataOf before).take count

namespace Holds

variable {before : List Value} {count : Nat} {s : Reader}

/-- What remains in the buffer. -/
theorem remaining (holds : Holds before count s) :
    s.bytes.bytesRemaining.toNat = (dataOf before).length - count := by
  rw [holds.buffer, bytesRemaining_filled _ _ holds.fits holds.inside]

/-- A write of some values. -/
theorem write (holds : Holds before count s) (items : List Value) (fits : (dataOf (before ++ items)).length < 2 ^ 32)
    {result : Option Bytes} (wrote : result = some (filled (dataOf before ++ dataOf items) count)) :
    ∃ s' : Reader, result.map (fun bytes => { s with bytes := bytes }) = some s' ∧ Holds (before ++ items) count s' := by
  refine ⟨_, by rw [wrote]; rfl, ?_⟩
  exact {
    buffer := by rw [dataOf_append]
    fits := fits
    inside := by
      rw [dataOf_append, List.length_append]
      exact Nat.le_add_right_of_le holds.inside
    reads := by rw [dataOf_append, List.take_append_of_le_length holds.inside, ← holds.reads] }

/-- A read of a value. -/
theorem read (holds : Holds before count s) {n : Nat} (enough : n ≤ s.bytes.bytesRemaining.toNat) (v : Value)
    (data : v.data = ((dataOf before).drop count).take n) :
    Holds (before ++ []) (count + n) ⟨s.bytes.advance (UInt32.ofNat n), s.values ++ [v]⟩ := by
  rw [holds.remaining] at enough
  have inside := holds.inside
  rw [List.append_nil]
  exact {
    buffer := by rw [holds.buffer, advance_filled]
    fits := holds.fits
    inside := by omega
    reads := by rw [dataOf_append, dataOf_singleton, holds.reads, data, ← List.take_add] }

/-- A write of a byte string. -/
theorem writeBytes (holds : Holds before count s) (data : List UInt8)
    (room : (dataOf before).length + data.length < 2 ^ 32) :
    ∃ s' : Reader, (s.bytes.putBytes data).map (fun bytes => { s with bytes := bytes }) = some s' ∧
      Holds (before ++ [.bytes data]) count s' := by
  have same : dataOf [.bytes data] = data := dataOf_singleton _
  apply holds.write
  · rw [dataOf_append, List.length_append, same]
    exact room
  · rw [holds.buffer, same]
    exact putBytes_filled _ _ _ room

/-- A read of a byte string. -/
theorem readBytes (holds : Holds before count s) (len : UInt32) (enough : len.toNat ≤ s.bytes.bytesRemaining.toNat) :
    Holds (before ++ []) (count + len.toNat)
      ⟨(s.bytes.getBytes len).2, s.values ++ [.bytes (s.bytes.getBytes len).1]⟩ := by
  have inside : count + len.toNat ≤ (dataOf before).length := by
    have within := enough
    rw [holds.remaining] at within
    have inside := holds.inside
    omega
  have bytes := getBytes_filled (dataOf before) count len.toNat holds.fits inside
  rw [UInt32.ofNat_toNat, ← holds.buffer] at bytes
  have read := holds.read enough (.bytes (s.bytes.getBytes len).1) (congrArg Prod.fst bytes)
  rw [UInt32.ofNat_toNat] at read
  exact read

/-- A word at the read position. Its bytes are the next ones behind what has been read. -/
theorem word (holds : Holds before count s) {n : Nat} (enough : n ≤ s.bytes.bytesRemaining.toNat) :
    leBytes n (s.bytes.readAt n s.bytes.rpos) = ((dataOf before).drop count).take n := by
  rw [holds.remaining] at enough
  have inside := holds.inside
  have length : (((dataOf before).drop count).take n).length = n := by
    rw [List.length_take, List.length_drop]
    omega
  have position : (filled (dataOf before) count).rpos = UInt32.ofNat count := rfl
  rw [holds.buffer, position, readAt_filled _ _ _ _ holds.fits (by omega)]
  apply leNat_injective
  · rw [leBytes_length, length]
  · have bound := leNat_lt (((dataOf before).drop count).take n)
    rw [length] at bound
    rw [leNat_leBytes, Nat.mod_eq_of_lt bound]

end Holds

/-- Digits above the width are dropped. -/
theorem leBytes_mod (width value : Nat) : leBytes width (value % 256 ^ width) = leBytes width value := by
  apply leNat_injective
  · simp
  · simp [leNat_leBytes]

/-- The bytes of a message are those of its packet. -/
theorem dataOf_message (msg : M) (type : UInt16) (fits : 8 + (proto.serialize msg).length < 2 ^ 32)
    (before : List Value) :
    dataOf ((Op.putMessage msg type).items proto before) = (Pack.ofMessage proto msg type fits).serialize := by
  have packSize := Pack.packSize_toNat fits
  simp [dataOf, Op.items, Value.data, proto.sized, packSize, Pack.serialize, Pack.head, Pack.size, Pack.ofMessage]

/-- One write or read: the values it writes stand behind the others, and the bytes it reads are
the next ones. The cases are the widths in turn, written and read little-endian, byte strings,
and the buffer put into itself. -/
theorem Holds.op {before : List Value} {count : Nat} {s : Reader} (holds : Holds before count s) (o : Op M)
    (within : Remaining s o) (fits : (dataOf (before ++ o.items proto before)).length < 2 ^ 32) :
    ∃ s', op proto s o = some s' ∧ Holds (before ++ o.items proto before) (count + o.width) s' := by
  have room : (dataOf before).length + (dataOf (o.items proto before)).length < 2 ^ 32 := by
    rwa [dataOf_append, List.length_append] at fits
  cases o with
  | put b =>
    apply holds.write [.byte b] fits
    rw [holds.buffer]
    exact append_filled _ _ _ room
  | putBytes data =>
    have same : dataOf [.bytes data] = data := dataOf_singleton _
    rw [Op.items, same] at room
    exact holds.writeBytes data room
  | putShort v =>
    apply holds.write [.short v] fits
    rw [holds.buffer]
    exact append_filled _ _ _ room
  | putInt v =>
    apply holds.write [.int v] fits
    rw [holds.buffer]
    exact append_filled _ _ _ room
  | putLong v =>
    apply holds.write [.long v] fits
    rw [holds.buffer]
    exact append_filled _ _ _ room
  | putAll src =>
    have same : dataOf [.bytes (src.buf.take src.size.toNat)] = src.buf.take src.size.toNat := dataOf_singleton _
    rw [Op.items, same] at room
    exact holds.writeBytes _ room
  | putSelf =>
    apply holds.write before fits
    rw [holds.buffer]
    exact putSelf_filled _ _ room
  | putMessage msg type =>
    have body : 8 + (proto.serialize msg).length < 2 ^ 32 := by
      simp [dataOf, Op.items, Value.data] at room
      omega
    have packet : dataOf ((Op.putMessage msg type).items proto before) = _ := dataOf_message msg type body before
    apply holds.write _ fits
    rw [packet] at room ⊢
    rw [holds.buffer]
    exact Pack.serializeMessage_filled msg type body _ _ (by simpa [Pack.size, Pack.ofMessage] using room)
  | get => exact ⟨_, rfl, holds.read within (.byte s.bytes.get.1) (holds.word within)⟩
  | getBytes len => exact ⟨_, rfl, holds.readBytes len within⟩
  | getShort =>
    exact ⟨_, rfl, holds.read within (.short s.bytes.getShort.1) ((leBytes_mod 2 _).trans (holds.word within))⟩
  | getInt =>
    exact ⟨_, rfl, holds.read within (.int s.bytes.getInt.1) ((leBytes_mod 4 _).trans (holds.word within))⟩
  | getLong =>
    exact ⟨_, rfl, holds.read within (.long s.bytes.getLong.1) ((leBytes_mod 8 _).trans (holds.word within))⟩

/-- Every run with these conditions goes through. The induction is on the run, its last
step split off. -/
theorem run_holds (ops : List (Op M)) (within : Along (op proto) Remaining ⟨cleared, []⟩ ops)
    (fits : (dataOf (written proto ops)).length < 2 ^ 32) :
    ∃ s, run (op proto) ⟨cleared, []⟩ ops = some s ∧ Holds (written proto ops) (readCount ops) s := by
  induction ops using List.reverseRecOn with
  | nil =>
    have empty : (dataOf []).length < 2 ^ 32 := by decide
    exact ⟨_, rfl, rfl, empty, Nat.le_refl _, rfl⟩
  | append_singleton ops last ih =>
    have wrote : written proto (ops ++ [last]) = written proto ops ++ last.items proto (written proto ops) := by
      simp [written]
    have count : readCount (ops ++ [last]) = readCount ops + last.width := by simp [readCount]
    rw [wrote] at fits ⊢
    have shorter : (dataOf (written proto ops)).length < 2 ^ 32 := by
      rw [dataOf_append, List.length_append] at fits
      omega
    obtain ⟨front, back⟩ := within.append
    obtain ⟨s, ran, holds⟩ := ih front shorter
    obtain ⟨s', stepped, holds'⟩ := holds.op last (back s ran).1 fits
    refine ⟨s', ?_, by rw [count]; exact holds'⟩
    rw [run_append, ran, Option.bind_some, run_cons, stepped]
    rfl

/-- Numbers within the width are told apart by their digits. -/
theorem leBytes_injective (width : Nat) {a b : Nat} (bound : a < 256 ^ width) (bound' : b < 256 ^ width)
    (same : leBytes width a = leBytes width b) : a = b := by
  have read := congrArg leNat same
  rwa [leNat_leBytes, leNat_leBytes, Nat.mod_eq_of_lt bound, Nat.mod_eq_of_lt bound'] at read

/-- Values of one kind with the same bytes are the same. A number is read back from its bytes.
-/
theorem Value.eq_of_data {v v' : Value} (kind : v.kind = v'.kind) (data : v.data = v'.data) : v = v' := by
  cases v with
  | byte b =>
    cases v' with
    | byte b' => exact congrArg Value.byte (List.cons.inj data).1
    | _ => cases kind
  | short v =>
    cases v' with
    | short v' => exact congrArg Value.short (UInt16.toNat_inj.mp (leBytes_injective 2 v.toNat_lt v'.toNat_lt data))
    | _ => cases kind
  | int v =>
    cases v' with
    | int v' => exact congrArg Value.int (UInt32.toNat_inj.mp (leBytes_injective 4 v.toNat_lt v'.toNat_lt data))
    | _ => cases kind
  | long v =>
    cases v' with
    | long v' => exact congrArg Value.long (UInt64.toNat_inj.mp (leBytes_injective 8 v.toNat_lt v'.toNat_lt data))
    | _ => cases kind
  | bytes data' =>
    cases v' with
    | bytes data'' => exact congrArg Value.bytes data
    | _ => cases kind

/-- Values of one kind have as many bytes. -/
theorem Value.length_of_kind {v v' : Value} (kind : v.kind = v'.kind) : v.data.length = v'.data.length := by
  have size : ∀ v : Value, v.data.length = match v.kind with
      | .byte => 1
      | .short => 2
      | .int => 4
      | .long => 8
      | .bytes len => len := by
    intro v
    cases v <;> simp [Value.kind, Value.data]
  rw [size, size, kind]

/-- Values whose bytes begin the bytes of others are the first of these, when they are of
their kinds. -/
theorem values_eq (read wrote : List Value) (kinds : read.map Value.kind = (wrote.take read.length).map Value.kind)
    (data : dataOf read <+: dataOf wrote) : read = wrote.take read.length := by
  induction read generalizing wrote with
  | nil => rfl
  | cons v read ih =>
    cases wrote with
    | nil => cases kinds
    | cons v' wrote =>
      obtain ⟨kind, kinds⟩ := List.cons.inj kinds
      obtain ⟨rest, joined⟩ := data
      have split : v.data ++ (dataOf read ++ rest) = v'.data ++ dataOf wrote := by
        rw [← List.append_assoc]
        exact joined
      obtain ⟨here, later⟩ := List.append_inj split (Value.length_of_kind kind)
      rw [Value.eq_of_data kind here, List.length_cons, List.take_succ_cons, ← ih wrote kinds ⟨rest, later⟩]

/-- The buffer is a queue. After any run of writes and reads whose reads stay inside and whose
writes stay below 4 GiB: the bytes read are the first of the bytes written, and the values
read with the widths of the values written are these; what remains is what has been written
and not read; and the positions lie at the end and not behind it.

Proof: the buffer holds all bytes written and its read position counts the bytes read; each
operation keeps this, the put of the buffer into itself among them, which writes what remains.
Values with the same widths and the same bytes are the same, since the little-endian bytes of
a width determine the number. -/
theorem run_queue (ops : List (Op M)) (within : Along (op proto) Remaining ⟨cleared, []⟩ ops)
    (fits : (dataOf (written proto ops)).length < 2 ^ 32) :
    ∃ s, run (op proto) ⟨cleared, []⟩ ops = some s ∧ s.bytes.buf = dataOf (written proto ops) ∧
      dataOf s.values = (dataOf (written proto ops)).take (readCount ops) ∧
      (s.values.map Value.kind = ((written proto ops).take s.values.length).map Value.kind →
        s.values = (written proto ops).take s.values.length) ∧
      readCount ops ≤ (dataOf (written proto ops)).length ∧
      s.bytes.bytesRemaining.toNat = (dataOf (written proto ops)).length - readCount ops ∧
      s.bytes.wpos = s.bytes.size ∧ s.bytes.rpos ≤ s.bytes.size := by
  obtain ⟨s, ran, holds⟩ := run_holds ops within fits
  have buffer := holds.buffer
  refine ⟨s, ran, by rw [buffer]; rfl, holds.reads, fun kinds => values_eq _ _ kinds ?_, holds.inside, holds.remaining,
    by rw [buffer]; rfl, ?_⟩
  · rw [holds.reads]
    exact List.take_prefix _ _
  · rw [buffer, UInt32.le_iff_toNat_le, filled_rpos _ _ holds.fits holds.inside]
    exact Nat.le_trans holds.inside (Nat.le_of_eq (word_toNat _ holds.fits).symm)

/-- Two words and some bytes are written, and read back with their widths. -/
theorem run_queue_words : ∃ s, run (op Pack.raw) ⟨cleared, []⟩
      [.putInt 123456, .putInt 1, .putBytes [229, 147, 136], .getInt, .putSelf, .getInt, .getBytes 3] = some s ∧
    s.values = [.int 123456, .int 1, .bytes [229, 147, 136]] := by
  obtain ⟨s, ran, _, _, same, _⟩ := @run_queue _ Pack.raw
    [.putInt 123456, .putInt 1, .putBytes [229, 147, 136], .getInt, .putSelf, .getInt, .getBytes 3]
    (by decide +kernel) (by decide +kernel)
  have evaluated : run (op Pack.raw) ⟨cleared, []⟩
      [.putInt 123456, .putInt 1, .putBytes [229, 147, 136], .getInt, .putSelf, .getInt, .getBytes 3] =
        some ⟨filled ([64, 226, 1, 0, 1, 0, 0, 0, 229, 147, 136] ++ [64, 226, 1, 0, 1, 0, 0, 0, 229, 147, 136]) 11,
          [.int 123456, .int 1, .bytes [229, 147, 136]]⟩ := by decide +kernel
  obtain rfl := Option.some.inj (evaluated.symm.trans ran)
  exact ⟨_, ran, same (by decide +kernel)⟩

end Naruto.Utils.Bytes
