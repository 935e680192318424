import Naruto.Command.Commands
import Naruto.Database.Buckets
import Naruto.Theory.BufferedOutput
import Naruto.Utils.PackCodec

/-!
# Writing a dump

`Buckets::dump` writes its packets to a file stream, asks it for its position, returns that
as an `int`, and only then closes the stream. The stream has a buffer, and counts what is in
it as written. So a dump that the buffer holds is reported as good on a full device as well,
and the `close` that fails then is not looked at. Whatever is reported, the file has a prefix
of the dump in the end.
-/

namespace Naruto.Database

open Naruto.Theory Naruto.Utils Naruto.Command

/-- A `std::ofstream`. -/
abbrev OutStream := Outlet UInt8

namespace OutStream

-- How much the stream keeps in its buffer is the library's matter.
variable (keeping : Keeping)

/-- `tellp`. -/
def tellp (out : OutStream) : Int := (out.position.map Int.ofNat).getD (-1)

/-- `Pack::serialize(msg, type, out)`, write by write, for a message with these bytes. They are
one write here; protobuf cuts a long message into several. -/
def serialize (msg : List UInt8) (type : UInt16) (out : OutStream) : OutStream :=
  let bodySize := UInt32.ofNat msg.length
  let packSize := 8 + bodySize
  let out := out.write keeping (leBytes 4 packSize.toNat)
  let out := out.write keeping (leBytes 2 (0 : UInt16).toNat)
  let out := out.write keeping (leBytes 2 type.toNat)
  out.write keeping msg

/-- What a packet writes, write by write. -/
def packWrites (msg : List UInt8) (type : UInt16) : List (List UInt8) :=
  [leBytes 4 (8 + UInt32.ofNat msg.length).toNat, leBytes 2 (0 : UInt16).toNat, leBytes 2 type.toNat, msg]

/-- A packet is written in these pieces. -/
theorem serialize_eq (msg : List UInt8) (type : UInt16) (out : OutStream) :
    serialize keeping msg type out = (packWrites msg type).foldl (Outlet.write keeping) out := rfl

/-- Together they are the packet. -/
theorem packWrites_flatten (msg : List UInt8) (type : UInt16) :
    (packWrites msg type).flatten = Pack.serializeStream Pack.raw msg type [] := by
  simp [packWrites, Pack.serializeStream, Pack.raw]

end OutStream

-- The bytes that protobuf writes for a message.
variable (serialized : Features → List UInt8)

/-- The bytes of a file with messages. -/
def fileBytes (file : List Features) : List UInt8 :=
  file.flatMap fun features => Pack.serializeStream Pack.raw (serialized features) replObject []

/-- The writes of a file with messages. -/
def fileWrites (file : List Features) : List (List UInt8) :=
  file.flatMap fun features => OutStream.packWrites (serialized features) replObject

/-- Together they are its bytes. -/
theorem fileWrites_flatten (file : List Features) : (fileWrites serialized file).flatten = fileBytes serialized file := by
  induction file with
  | nil => rfl
  | cons features file ih =>
    rw [fileWrites, List.flatMap_cons, List.flatten_append, OutStream.packWrites_flatten]
    exact congrArg _ ih

namespace Buckets

/-- The bytes of a complete dump. -/
def dumpBytes (b : Buckets) : List UInt8 := fileBytes serialized b.dump

variable (keeping : Keeping)

/-- The stream of `Buckets::dump` behind its loop. -/
def dumpStream (b : Buckets) (room : Nat) : OutStream :=
  b.dump.foldl (fun out features => out.serialize keeping (serialized features) replObject) (Outlet.opened room)

/-- `Buckets::dump(filename)`: the returned `int`, and what is under the name afterwards.
The device does not open the file, or takes a number of bytes. -/
def dumpFile (b : Buckets) (device : Option Nat) (tmpFile : Option (List UInt8)) : Int × Option (List UInt8) :=
  if b.size = 0 then (0, tmpFile)
  else match device with
    | none => (-1, tmpFile)
    | some room =>
      let out := b.dumpStream serialized keeping room
      (out.tellp.bmod (2 ^ 32), some out.close)

/-- The packets one after the other are their writes. By induction on the messages. -/
theorem foldl_serialize (file : List Features) (out : OutStream) :
    file.foldl (fun out features => out.serialize keeping (serialized features) replObject) out =
      (fileWrites serialized file).foldl (Outlet.write keeping) out := by
  induction file generalizing out with
  | nil => rfl
  | cons features file ih =>
    have writes : fileWrites serialized (features :: file) =
        OutStream.packWrites (serialized features) replObject ++ fileWrites serialized file := rfl
    rw [List.foldl_cons, ih, OutStream.serialize_eq, writes, List.foldl_append]

/-- The stream behind the loop: everything has been written to it. -/
theorem dumpStream_holds (b : Buckets) (room : Nat) :
    Outlet.Holds room (b.dumpBytes serialized) (b.dumpStream serialized keeping room) := by
  have written := (Outlet.holds_opened room).writes keeping (fileWrites serialized b.dump)
  rw [List.nil_append, fileWrites_flatten] at written
  rw [dumpStream, foldl_serialize]
  exact written

/-- A dump to a device that opens the file leaves the prefix of the complete dump that
the device takes. -/
theorem dumpFile_opened (b : Buckets) (something : b.size ≠ 0) (room : Nat) (tmpFile : Option (List UInt8)) :
    (b.dumpFile serialized keeping (some room) tmpFile).2 = some ((b.dumpBytes serialized).take room) := by
  rw [dumpFile, if_neg something]
  exact congrArg some (b.dumpStream_holds serialized keeping room).close

/-- What it returns says nothing about the file: it is negative when the stream has noticed a
full device, and else the length of the complete dump as an `int`. -/
theorem dumpFile_returns (b : Buckets) (something : b.size ≠ 0) (room : Nat) (tmpFile : Option (List UInt8)) :
    (b.dumpFile serialized keeping (some room) tmpFile).1 =
      if (b.dumpStream serialized keeping room).failed then -1
      else ((b.dumpBytes serialized).length : Int).bmod (2 ^ 32) := by
  have position := (b.dumpStream_holds serialized keeping room).position
  rw [dumpFile, if_neg something]
  dsimp only
  rw [OutStream.tellp, position]
  split <;> rfl

/-- A dump that the buffer holds is not noticed to fail on any device. -/
theorem dumpStream_kept (b : Buckets) (room direct size : Nat) (small : (b.dumpBytes serialized).length < direct)
    (fits : (b.dumpBytes serialized).length < size) :
    (b.dumpStream serialized (Keeping.ofSize direct size) room).failed = false := by
  have kept := Outlet.keeps_all (fileWrites serialized b.dump) (Outlet.opened room) direct size rfl
    (by rw [fileWrites_flatten]; exact small)
    (by rw [fileWrites_flatten]; exact Nat.lt_of_le_of_lt (Nat.le_of_eq (Nat.zero_add _)) fits)
  rw [dumpStream, foldl_serialize, kept]
  rfl

/-- A store with a key has a dump. -/
theorem dumpBytes_ne_nil (b : Buckets) (something : b.size ≠ 0) : b.dumpBytes serialized ≠ [] := by
  intro empty
  have messages : b.dump.length = b.size := by
    simp only [dump, size, Row.features, List.length_flatMap, List.length_map]
  cases file : b.dump with
  | nil =>
    rw [file] at messages
    exact something messages.symm
  | cons features rest =>
    rw [dumpBytes, file] at empty
    have header := congrArg List.length empty
    simp [fileBytes, Pack.serializeStream] at header

/-- A dump to a device that does not open the file leaves what was there. -/
theorem dumpFile_unopened (b : Buckets) (tmpFile : Option (List UInt8)) :
    (b.dumpFile serialized keeping none tmpFile).2 = tmpFile := by
  simp only [dumpFile]
  split <;> rfl

end Buckets

end Naruto.Database
