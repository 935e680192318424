import Naruto.Command.Hset
import Naruto.Utils.File

/-!
# Receiving a command

`clientLink::onRead` clears the buffer, receives one packet into it, reads its
header relatively and dispatches on the type. `CommandHset::exec` then reads a
header once more, again relatively, and so reads the first eight bytes of the
body; the start-up replay takes the header's own values. The two paths agree
exactly on packets whose body begins with a copy of their header.
-/

namespace Naruto.Link

open Naruto.Theory Naruto.Utils Naruto.Database Naruto.Command

/-- What `execMsg` is called with: the flag, the type, the bytes from the pointer to
the end of the memory it points into, and the length as an unsigned 32-bit value. -/
structure ExecArgs where
  flag : UInt16
  type : UInt16
  s : List UInt8
  n : UInt32
deriving DecidableEq, Repr

/-- `rbuf.clear()` and `connect->recv(rbuf)` for one packet. -/
def recv (p : Pack) : Option Bytes := Bytes.cleared.putBytes p.serialize

/-- The relative reads of `onRead`: the buffer behind the header, and the type. -/
def onRead (rbuf : Bytes) : Bytes × UInt16 :=
  let rbuf := rbuf.getInt.2
  let rbuf := rbuf.getShort.2
  (rbuf.getShort.2, rbuf.getShort.1)

/-- The relative reads of `CommandHset::exec` and the arguments it passes on. -/
def hsetExec (rbuf : Bytes) : ExecArgs :=
  let len := rbuf.getInt.1
  let rbuf := rbuf.getInt.2
  let flag := rbuf.getShort.1
  let rbuf := rbuf.getShort.2
  let type := rbuf.getShort.1
  ⟨flag, type, rbuf.buf.drop 8, len - 8⟩

/-- The arguments of the live path: receive, read the header, dispatch. -/
def liveArgs (p : Pack) : Option ExecArgs := do
  let rbuf ← recv p
  match ← fetch (onRead rbuf).2 with
  | .commandHset => some (hsetExec (onRead rbuf).1)
  | _ => none

/-- The arguments of the start-up replay: the packet loop of `loadFile` on a buffer
that holds the packet, and the callback of `_init`. -/
def replayArgs (p : Pack) : Option ExecArgs := do
  let rbuf ← recv p
  let call ← (nextPack rbuf).2
  match ← fetch call.type with
  | .commandHset => some ⟨call.flag, call.type, call.msg, UInt32.ofNat call.msg.length⟩
  | _ => none

/-- `execMsg` on arguments. A length beyond the memory is read out of bounds. -/
def runExec (parse : ParseHset) (clock : Clock) (db : Buckets) (args : ExecArgs) :
    Option (Buckets × CommandReply) :=
  if args.n.toNat ≤ args.s.length then execMsg parse clock args.flag args.type db (args.s.take args.n.toNat)
  else none

/-- The bytes that `execMsg` parses when the memory goes on: `n` of those at the pointer, or
whatever is read when these are too few. -/
def ExecArgs.bytes (args : ExecArgs) (beyond : List UInt8) : List UInt8 :=
  if args.n.toNat ≤ args.s.length then args.s.take args.n.toNat else beyond

/-- The packet's own arguments. -/
def ownArgs (p : Pack) : ExecArgs := ⟨p.flag, p.type, p.body, UInt32.ofNat p.body.length⟩

/-- A packet that is received whole is in the buffer as it was sent. -/
theorem recv_eq (p : Pack) : recv p = some (Bytes.filled p.serialize 0) := by
  have room : ([] : List UInt8).length + p.serialize.length < 2 ^ 32 := by
    rw [List.length_nil, Nat.zero_add, Pack.serialize_length]
    exact p.size_lt
  exact Bytes.putBytes_filled [] p.serialize 0 room

/-- The unread part of a received packet. -/
theorem reads_received (p : Pack) : Reads p.serialize 0 (p.serialize ++ []) := by
  refine ⟨by rw [Pack.serialize_length]; exact p.size_lt, Nat.zero_le _, ?_⟩
  rw [List.append_nil, List.drop_zero, Nat.sub_zero, List.take_length]

/-- `onRead` finds the type and leaves the read position behind the header. -/
theorem onRead_received (p : Pack) : onRead (Bytes.filled p.serialize 0) = (Bytes.filled p.serialize 8, p.type) := by
  have lower := p.head_le_size
  have length := p.serialize_length
  have typeWord := (reads_received p).word 6 2 6 (by omega)
  rw [List.append_nil, p.serialize_fields.2.2.1] at typeWord
  have moved4 : (Bytes.filled p.serialize 0).advance 4 = Bytes.filled p.serialize 4 := Bytes.advance_filled _ 0 4
  have moved6 : (Bytes.filled p.serialize 4).advance 2 = Bytes.filled p.serialize 6 := Bytes.advance_filled _ 4 2
  have moved8 : (Bytes.filled p.serialize 6).advance 2 = Bytes.filled p.serialize 8 := Bytes.advance_filled _ 6 2
  have type : UInt16.ofNat ((Bytes.filled p.serialize 6).readAt 2 6) = p.type :=
    (congrArg UInt16.ofNat typeWord).trans UInt16.ofNat_toNat
  simp only [onRead, Bytes.getInt, Bytes.getShort, moved4, moved6, moved8]
  exact congrArg (Prod.mk _) type

/-- The type 2000 is described and belongs to `hset`. -/
theorem fetch_hset : fetch 2000 = some .commandHset := by decide

/-- The replay passes on the packet's own arguments. -/
theorem replayArgs_hset (p : Pack) (hset : p.type = 2000) : replayArgs p = some (ownArgs p) := by
  have length := p.serialize_length
  obtain ⟨taken, _⟩ := nextPack_whole p.serialize [] 0 p (reads_received p) (by omega)
  have callType : p.call.type = 2000 := hset
  rw [replayArgs, recv_eq]
  simp only [Option.bind_eq_bind, Option.bind_some, taken, callType, fetch_hset]
  rw [← hset]
  rfl

/-- The live path passes on what stands behind the header. -/
theorem liveArgs_hset (p : Pack) (hset : p.type = 2000) :
    liveArgs p = some (hsetExec (Bytes.filled p.serialize 8)) := by
  rw [liveArgs, recv_eq]
  simp only [Option.bind_eq_bind, Option.bind_some, onRead_received, hset, fetch_hset]

/-- A word behind the header is a word of the body, or zero when the body ends before. -/
theorem body_word (p : Pack) (position width index : Nat) (bound : index + width ≤ 8) :
    (Bytes.filled p.serialize position).readAt width (UInt32.ofNat (8 + index)) =
      if index + width ≤ p.body.length then leNat ((p.body.drop index).take width) else 0 := by
  have length : p.serialize.length = 8 + p.body.length := p.serialize_length
  have fits := p.fits
  by_cases inside : index + width ≤ p.body.length
  · rw [if_pos inside, Bytes.readAt_filled _ _ _ _ (by omega) (by omega), ← List.drop_drop,
      p.serialize_fields.2.2.2]
  · rw [if_neg inside, Bytes.readAt_outside _ _ _ _ (by omega) (by omega)]

/-- The arguments read behind the header. -/
theorem hsetExec_body (p : Pack) :
    hsetExec (Bytes.filled p.serialize 8) =
      ⟨UInt16.ofNat ((Bytes.filled p.serialize 12).readAt 2 12),
        UInt16.ofNat ((Bytes.filled p.serialize 14).readAt 2 14), p.body,
        UInt32.ofNat ((Bytes.filled p.serialize 8).readAt 4 8) - 8⟩ := by
  have moved12 : (Bytes.filled p.serialize 8).advance 4 = Bytes.filled p.serialize 12 := Bytes.advance_filled _ 8 4
  have moved14 : (Bytes.filled p.serialize 12).advance 2 = Bytes.filled p.serialize 14 := Bytes.advance_filled _ 12 2
  have body : p.serialize.drop 8 = p.body := p.serialize_fields.2.2.2
  have storage : (Bytes.filled p.serialize 14).buf = p.serialize := rfl
  simp only [hsetExec, Bytes.getInt, Bytes.getShort, moved12, moved14, storage, body]
  rfl

/-- A half word equals a value exactly when its bytes are the value's. Two bytes and the value
determine each other. -/
theorem short_eq_iff (bytes : List UInt8) (value : UInt16) (width : bytes.length = 2) :
    UInt16.ofNat (leNat bytes) = value ↔ bytes = leBytes 2 value.toNat := by
  have bound : leNat bytes < 65536 := by
    have := leNat_lt bytes
    rw [width] at this
    exact this
  have low : value.toNat % 256 ^ 2 = value.toNat := Nat.mod_eq_of_lt value.toNat_lt
  constructor
  · intro same
    have number : leNat bytes = value.toNat := by
      rw [← same, UInt16.toNat_ofNat_of_lt' bound]
    refine leNat_injective _ _ (by rw [width, leBytes_length]) ?_
    rw [number, leNat_leBytes, low]
  · intro same
    rw [same, leNat_leBytes, low, UInt16.ofNat_toNat]

/-- A word equals a length exactly when its bytes are the length's. Four bytes and a number
below 4 GiB determine each other. -/
theorem int_eq_iff (bytes : List UInt8) (n : Nat) (width : bytes.length = 4) (fits : n < 2 ^ 32) :
    UInt32.ofNat (leNat bytes) = UInt32.ofNat n ↔ bytes = leBytes 4 n := by
  have bound : leNat bytes < 2 ^ 32 := by
    have := leNat_lt bytes
    rw [width] at this
    exact this
  have low : n % 256 ^ 4 = n := Nat.mod_eq_of_lt fits
  constructor
  · intro same
    have number := congrArg UInt32.toNat same
    rw [word_toNat _ bound, word_toNat _ fits] at number
    refine leNat_injective _ _ (by rw [width, leBytes_length]) ?_
    rw [number, leNat_leBytes, low]
  · intro same
    rw [same, leNat_leBytes, low]

/-- The first eight bytes of a body, in the pieces a header has. -/
theorem take_eight (body : List UInt8) :
    body.take 8 = body.take 4 ++ (body.drop 4).take 2 ++ (body.drop 6).take 2 := by
  change body.take (4 + 2 + 2) = _
  rw [List.take_add, List.take_add]

/-- The length read behind the header, less the header's size, is the body's length
exactly when the word read is the packet's size. -/
theorem length_iff (word : UInt32) (n : Nat) : word - 8 = UInt32.ofNat n ↔ word = UInt32.ofNat (8 + n) := by
  rw [UInt32.ofNat_add]
  constructor
  · intro same
    rw [← same, UInt32.add_comm]
    exact (UInt32.sub_add_cancel word 8).symm
  · intro same
    rw [same, UInt32.add_comm]
    exact UInt32.add_sub_cancel _ _

/-- With its own arguments a packet has its body parsed. -/
theorem ownArgs_bytes (p : Pack) (beyond : List UInt8) : (ownArgs p).bytes beyond = p.body := by
  have length : (UInt32.ofNat p.body.length).toNat = p.body.length :=
    word_toNat _ (Nat.lt_of_le_of_lt (Nat.le_add_left _ 8) p.fits)
  rw [ExecArgs.bytes, ownArgs, length, if_pos (Nat.le_refl _), List.take_length]

/-- The two paths read the same arguments exactly when the body begins with a copy
of the header. The type is not zero, so the body then holds all eight bytes; with
eight bytes there the three words are compared one by one. -/
theorem hsetExec_own_iff (p : Pack) (hset : p.type = 2000) :
    hsetExec (Bytes.filled p.serialize 8) = ownArgs p ↔ p.body.take 8 = p.head := by
  have sizeWord := body_word p 8 4 0 (by omega)
  have flagWord := body_word p 12 2 4 (by omega)
  have typeWord := body_word p 14 2 6 (by omega)
  by_cases eight : 8 ≤ p.body.length
  · rw [if_pos (by omega), List.drop_zero] at sizeWord
    rw [if_pos (by omega)] at flagWord typeWord
    have size4 : (p.body.take 4).length = 4 := List.length_take_of_le (by omega)
    have flag2 : ((p.body.drop 4).take 2).length = 2 :=
      List.length_take_of_le (by rw [List.length_drop]; omega)
    have type2 : ((p.body.drop 6).take 2).length = 2 :=
      List.length_take_of_le (by rw [List.length_drop]; omega)
    have sizeIff := int_eq_iff _ p.size size4 p.size_lt
    have flagIff := short_eq_iff _ p.flag flag2
    have typeIff := short_eq_iff _ p.type type2
    have lengthIff := length_iff (UInt32.ofNat (leNat (p.body.take 4))) p.body.length
    have args : hsetExec (Bytes.filled p.serialize 8) =
        ⟨UInt16.ofNat (leNat ((p.body.drop 4).take 2)), UInt16.ofNat (leNat ((p.body.drop 6).take 2)), p.body,
          UInt32.ofNat (leNat (p.body.take 4)) - 8⟩ := by
      rw [hsetExec_body, ← sizeWord, ← flagWord, ← typeWord]
      rfl
    rw [args, ownArgs, take_eight, Pack.head, ExecArgs.mk.injEq, flagIff, typeIff, lengthIff]
    constructor
    · rintro ⟨flag, type, _, size⟩
      rw [flag, type, sizeIff.mp size]
    · intro same
      obtain ⟨front, type⟩ := List.append_inj' same (by rw [type2, leBytes_length])
      obtain ⟨size, flag⟩ := List.append_inj front (by rw [size4, leBytes_length])
      exact ⟨flag, type, rfl, sizeIff.mpr size⟩
  · rw [if_neg (by omega)] at typeWord
    constructor
    · intro same
      rw [hsetExec_body, ownArgs, ExecArgs.mk.injEq] at same
      have zero : (Bytes.filled p.serialize 14).readAt 2 14 = 0 := typeWord
      have type := same.2.1
      rw [zero, hset] at type
      exact absurd type (by decide)
    · intro same
      have length := congrArg List.length same
      rw [Pack.head_length, List.length_take] at length
      omega

/-- The live path and the replay of one `hset` packet agree, in what they pass to `execMsg`
and then in the change to every store and the reply, exactly when the body begins with a copy
of the packet's header.

Proof: `onRead` has already read length, flag and type when `CommandHset::exec` reads them
once more, from the body; the replay passes the body as it is. Both are computed as arguments
of `execMsg`, and a second header read from the first eight bytes of the body gives the
packet's own arguments only if these bytes are its header. -/
theorem hset_paths_agree_iff (parse : ParseHset) (p : Pack) (hset : p.type = 2000) :
    (∃ live replay, liveArgs p = some live ∧ replayArgs p = some replay ∧ live = ownArgs p ∧ replay = ownArgs p ∧
        ∀ clock db, runExec parse clock db live = runExec parse clock db replay) ↔
      p.body.take 8 = p.head := by
  rw [liveArgs_hset p hset, replayArgs_hset p hset, ← hsetExec_own_iff p hset]
  constructor
  · rintro ⟨live, _, passed, _, own, _⟩
    exact (Option.some.inj passed).trans own
  · intro own
    exact ⟨ownArgs p, ownArgs p, congrArg some own, rfl, rfl, rfl, fun _ _ => rfl⟩

/-- A packet of flag 0 whose body is a copy of its own header takes both paths alike. -/
theorem hset_paths_agree_copied :
    ∃ live replay, liveArgs ⟨0, 2000, [16, 0, 0, 0, 0, 0, 208, 7], by decide⟩ = some live ∧
      replayArgs ⟨0, 2000, [16, 0, 0, 0, 0, 0, 208, 7], by decide⟩ = some replay ∧
      live = ownArgs ⟨0, 2000, [16, 0, 0, 0, 0, 0, 208, 7], by decide⟩ ∧
      replay = ownArgs ⟨0, 2000, [16, 0, 0, 0, 0, 0, 208, 7], by decide⟩ ∧
      ∀ clock db, runExec (fun _ => ⟨[], [], 0, none⟩) clock db live =
        runExec (fun _ => ⟨[], [], 0, none⟩) clock db replay :=
  (hset_paths_agree_iff _ ⟨0, 2000, [16, 0, 0, 0, 0, 0, 208, 7], by decide⟩ rfl).mpr (by decide)

/-- An `hset` of the string "x" in field "f" of key "k": the live path passes a
length that the packet does not have. -/
theorem hset_paths_differ : ¬ ∀ p : Pack, p.type = 2000 → liveArgs p = some (ownArgs p) := by
  intro always
  have live := always ⟨0, 2000, [10, 1, 107, 18, 1, 102, 34, 5, 26, 3, 10, 1, 120], by decide⟩ rfl
  rw [liveArgs_hset _ rfl] at live
  have copied := (hsetExec_own_iff _ rfl).mp (Option.some.inj live)
  exact absurd copied (by decide)

end Naruto.Link
