import Naruto.Theory.SegmentedLog
import Naruto.Utils.Pack

/-!
# The rotating AOF stream

`RotateFileStream` appends to the last of a sequence of numbered files and opens
the next one when the current file has reached its size before a write. A place
in these files is recorded as a file name and a byte offset; the start-up replay
goes from there through the rest of the file and all later files.

A file is kept as the packets written to it. Its name `naruto.aof.<n>` is kept as
the number `n`, which the name determines.
-/

namespace Naruto.Sink

open Naruto.Theory Naruto.Utils

/-- `fileState`, and the pairs of a name and an offset that `replConf` and
`replicaLink` hold: the number in the name, nothing for the empty name. -/
structure FileState where
  name : Option Nat
  offset : Nat
deriving DecidableEq, Repr

/-- `RotateFileStream`: the files before the current one, and the current one. -/
structure RotateFileStream where
  rotateAofFileSize : Nat
  closed : List (List Pack)
  current : List Pack
deriving DecidableEq

namespace RotateFileStream

/-- The files, in the order of their numbers. -/
def files (stream : RotateFileStream) : List (List Pack) := stream.closed ++ [stream.current]

/-- `curRollFile`: the current name and `tellp`. -/
def curRollFile (stream : RotateFileStream) : FileState :=
  ⟨some stream.closed.length, (Pack.encodeAll stream.current).length⟩

/-- `_rotate_init`: a new file behind those that are there. -/
def rotateInit (rotateAofFileSize : Nat) (files : List (List Pack)) : RotateFileStream :=
  ⟨rotateAofFileSize, files, []⟩

/-- `_rotate`. -/
def rotate (stream : RotateFileStream) : RotateFileStream :=
  { stream with closed := stream.closed ++ [stream.current], current := [] }

/-- `write` of whole packets. -/
def write (stream : RotateFileStream) (packs : List Pack) : RotateFileStream :=
  let stream :=
    if stream.rotateAofFileSize ≤ (Pack.encodeAll stream.current).length then stream.rotate else stream
  { stream with current := stream.current ++ packs }

/-- A write extends the log by what it writes. -/
theorem write_grows (stream : RotateFileStream) (packs : List Pack) :
    Grows stream.files packs (stream.write packs).files := by
  rw [write]
  split
  · exact Grows.rotate stream.files packs
  · exact Grows.extend stream.closed stream.current packs

/-- Opening the stream anew leaves the log as it is. -/
theorem rotateInit_grows (rotateAofFileSize : Nat) (files : List (List Pack)) :
    Grows files [] (rotateInit rotateAofFileSize files).files :=
  Grows.rotate files []

end RotateFileStream

/-- `loadFile` from a byte offset on a packet boundary: the packets it delivers. -/
def loadFrom : List Pack → Nat → List Pack
  | [], _ => []
  | p :: ps, offset => if offset = 0 then p :: ps else loadFrom ps (offset - p.size)

/-- `listAof`: the files from the named one on, or all of them. -/
def listAof (files : List (List Pack)) (after : Option Nat) : List (List Pack) := files.drop (after.getD 0)

/-- The packets that the loop of `_init` loads: the first file from the offset,
the later ones from their beginnings. -/
def loadAof (files : List (List Pack)) (position : FileState) : List Pack :=
  match listAof files position.name with
  | [] => []
  | file :: later => loadFrom file position.offset ++ later.flatten

/-- A recorded position stands for a place: its file, or the first file when the
name is empty, and the bytes of the packets before the place. -/
structure Names (files : List (List Pack)) (position : FileState) (place : Place) : Prop where
  valid : place.Valid files
  name : position.name.getD 0 = place.segment
  offset : ∀ file, files[place.segment]? = some file →
    position.offset = (Pack.encodeAll (file.take place.offset)).length

/-- A recorded position has `n` packets of the log before it. -/
def At (files : List (List Pack)) (position : FileState) (n : Nat) : Prop :=
  ∃ place, Names files position place ∧ place.index files = n

/-- From a packet boundary on, exactly the packets behind it are delivered. -/
theorem loadFrom_boundary (front back : List Pack) :
    loadFrom (front ++ back) (Pack.encodeAll front).length = back := by
  induction front with
  | nil => cases back <;> rfl
  | cons p front ih =>
    have lower := p.head_le_size
    have positive : ¬ (Pack.encodeAll (p :: front)).length = 0 := by
      rw [Pack.encodeAll_cons, List.length_append, Pack.serialize_length]
      omega
    have left : (Pack.encodeAll (p :: front)).length - p.size = (Pack.encodeAll front).length := by
      rw [Pack.encodeAll_cons, List.length_append, Pack.serialize_length, Nat.add_sub_cancel_left]
    rw [List.cons_append, loadFrom, if_neg positive, left]
    exact ih

/-- The replay from a recorded position is the log behind it. It reads the rest of the file of
the position, which begins on a boundary, and the files behind it. -/
theorem At.loadAof {files : List (List Pack)} {position : FileState} {n : Nat} (located : At files position n) :
    loadAof files position = files.flatten.drop n := by
  obtain ⟨place, names, rfl⟩ := located
  rw [← Place.behind_eq_drop names.valid]
  obtain ⟨segment, found, inside⟩ := names.valid
  have bound : place.segment < files.length := (List.getElem?_eq_some_iff.mp found).1
  have here : files[place.segment] = segment := (List.getElem?_eq_some_iff.mp found).2
  have split : listAof files position.name = segment :: files.drop (place.segment + 1) := by
    rw [listAof, names.name, List.drop_eq_getElem_cons bound, here]
  have boundary := loadFrom_boundary (segment.take place.offset) (segment.drop place.offset)
  rw [List.take_append_drop, ← names.offset segment found] at boundary
  rw [Sink.loadAof, split]
  simp only [boundary]
  rw [Place.behind, List.drop_eq_getElem_cons bound, here, List.flatten_cons,
    List.drop_append_of_le_length inside]

/-- A recorded position lies within the log. -/
theorem At.le {files : List (List Pack)} {position : FileState} {n : Nat} (located : At files position n) :
    n ≤ files.flatten.length := by
  obtain ⟨place, names, rfl⟩ := located
  exact names.valid.index_le

/-- A recorded position keeps its meaning while the log grows. -/
theorem At.grows {files files' : List (List Pack)} {more : List Pack} {position : FileState} {n : Nat}
    (located : At files position n) (grows : Grows files more files') : At files' position n := by
  obtain ⟨place, names, rfl⟩ := located
  obtain ⟨valid', index⟩ := grows.place names.valid
  refine ⟨place, ⟨valid', names.name, fun file' found' => ?_⟩, index⟩
  obtain ⟨segment, found, inside⟩ := names.valid
  obtain ⟨⟨added, extended⟩, _⟩ := grows.segment found
  obtain rfl : segment ++ added = file' := Option.some.inj (extended.symm.trans found')
  rw [names.offset segment found, List.take_append_of_le_length inside]

/-- The current position of the stream is the end of the log. -/
theorem RotateFileStream.curRollFile_at (stream : RotateFileStream) :
    At stream.files stream.curRollFile stream.files.flatten.length := by
  have opened : stream.files ≠ [] := List.concat_ne_nil _ _
  have place : Place.last stream.files = ⟨stream.closed.length, stream.current.length⟩ := by
    simp [Place.last, files]
  obtain ⟨valid, index⟩ := Place.last_valid stream.files opened
  rw [place] at valid index
  refine ⟨⟨stream.closed.length, stream.current.length⟩, ⟨valid, rfl, fun file found => ?_⟩, index⟩
  have here : stream.files[stream.closed.length]? = some stream.current := List.getElem?_concat_length
  obtain rfl : stream.current = file := Option.some.inj (here.symm.trans found)
  rw [List.take_length]
  rfl

/-- The log is extended by packets, and recorded positions keep their meaning. -/
structure Extends (files : List (List Pack)) (more : List Pack) (files' : List (List Pack)) : Prop where
  log : files'.flatten = files.flatten ++ more
  positions : ∀ position n, At files position n → At files' position n

/-- A log that has not changed. -/
theorem Extends.refl (files : List (List Pack)) : Extends files [] files :=
  ⟨(List.append_nil _).symm, fun _ _ located => located⟩

/-- A log that grows is extended. -/
theorem Extends.of_grows {files files' : List (List Pack)} {more : List Pack} (grows : Grows files more files') :
    Extends files more files' :=
  ⟨grows.flatten, fun _ _ located => located.grows grows⟩

/-- The position that a server without a configuration file has is the beginning. -/
theorem at_start (files : List (List Pack)) (opened : files ≠ []) : At files ⟨none, 0⟩ 0 := by
  obtain ⟨file, later, rfl⟩ := List.exists_cons_of_ne_nil opened
  have valid := Place.Valid.of_split [] later file 0 (Nat.zero_le _)
  refine ⟨⟨0, 0⟩, ⟨valid, rfl, fun file' found => ?_⟩, rfl⟩
  rw [List.take_zero]
  rfl

/-- So is the beginning of the first file. -/
theorem at_first (files : List (List Pack)) (opened : files ≠ []) : At files ⟨some 0, 0⟩ 0 := by
  obtain ⟨place, names, index⟩ := at_start files opened
  exact ⟨place, ⟨names.valid, names.name, names.offset⟩, index⟩

/-- A recorded position has one place in the log. -/
theorem At.unique {files : List (List Pack)} {position : FileState} {n n' : Nat} (located : At files position n)
    (located' : At files position n') : n = n' := by
  have same := congrArg List.length (located.loadAof.symm.trans located'.loadAof)
  rw [List.length_drop, List.length_drop] at same
  have inside := located.le
  have inside' := located'.le
  omega

end Naruto.Sink
