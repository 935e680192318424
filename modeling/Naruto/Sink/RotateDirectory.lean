import Naruto.Sink.RotateFileStream
import Naruto.Theory.Runs
import Naruto.Theory.Segmentation
import Naruto.Utils.Directory

/-!
# The rotating stream in its directory

The stream of `RotateFileStream` with the directory that it writes to, byte by byte. It
begins a new file behind the largest number that it finds there, and another one when a
write comes and the file has reached its size. The number is an `int`.

In a directory whose names can be read, in which nothing else has the names of the new
files, the new files are the writes put into segments of that size, and the recorded
position after each write has behind it what is written later.
-/

namespace Naruto.Sink

open Naruto.Theory Naruto.Utils

/-- `fileState`. -/
structure RollFile where
  name : String
  offset : Nat
deriving DecidableEq, Repr

/-- `RotateFileStream` and its directory: what it has written to the open file, which no one
else writes to, and the other entries. The buffer of the `ofstream` is not told apart from
the file. -/
structure DirStream where
  rotateAofFileSize : Nat
  rotateAofIdx : Int
  curAofFile : String
  written : List UInt8
  others : List DirEntry

namespace DirStream

/-- The directory. -/
def dir (stream : DirStream) : List DirEntry := stream.others ++ [⟨stream.curAofFile, true, stream.written⟩]

/-- `stream_->tellp()`. -/
def tellp (stream : DirStream) : Nat := stream.written.length

/-- `curRollFile`. -/
def curRollFile (stream : DirStream) : RollFile := ⟨stream.curAofFile, stream.tellp⟩

/-- The next number. Nothing when it is not an `int`. -/
def nextIdx (idx : Int) : Option Int := if File.isInt (idx + 1) = true then some (idx + 1) else none

/-- The new file of a number. Nothing when its name is taken: such an entry cannot be
opened, or has contents of its own. -/
def openFile (rotateAofFileSize : Nat) (dir : List DirEntry) (idx : Int) : Option DirStream :=
  if File.aofFilename idx ∈ dir.map DirEntry.name then none
  else some ⟨rotateAofFileSize, idx, File.aofFilename idx, [], dir⟩

/-- The number of the first file to be created, behind the names that are listed. -/
def initIdx (list : List String) : Option Int :=
  match list.getLast? with
  | some last => (File.parseFileName last).bind nextIdx
  | none => some 0

/-- `_rotate_init`. -/
def rotateInit (sorting : File.NameSort) (rotateAofFileSize : Nat) (dir : List DirEntry) : Option DirStream := do
  let list ← File.listAof sorting dir ""
  let idx ← initIdx list
  openFile rotateAofFileSize dir idx

/-- `_rotate`. -/
def rotate (stream : DirStream) : Option DirStream :=
  (nextIdx stream.rotateAofIdx).bind (openFile stream.rotateAofFileSize stream.dir)

/-- `write`. -/
def write (stream : DirStream) (data : List UInt8) : Option DirStream := do
  let stream ← if stream.rotateAofFileSize ≤ stream.tellp then stream.rotate else some stream
  some { stream with written := stream.written ++ data }

/-- The stream after some writes to a directory. -/
def writes (sorting : File.NameSort) (rotateAofFileSize : Nat) (dir : List DirEntry) (data : List (List UInt8)) :
    Option DirStream :=
  (rotateInit sorting rotateAofFileSize dir).bind fun stream => run write stream data

end DirStream

/-- A number of an AOF file that `listAof` finds in the directory. -/
def Listed (dir : List DirEntry) (idx : Int) : Prop :=
  ∃ entry ∈ dir, File.takesName (-1) entry = some true ∧ File.aofIndex entry.name = idx

/-- The largest of these numbers, if there are any. -/
def Largest (dir : List DirEntry) : Option Int → Prop
  | some m => Listed dir m ∧ ∀ idx, Listed dir idx → idx ≤ m
  | none => ∀ idx, ¬ Listed dir idx

/-- The number of the first new file. -/
def firstIdx (m : Option Int) : Int := m.elim 0 (· + 1)

/-- Files with consecutive numbers. -/
def numbered (idx : Int) : List (List UInt8) → List DirEntry
  | [] => []
  | contents :: later => ⟨File.aofFilename idx, true, contents⟩ :: numbered (idx + 1) later

/-- What is said of a stream of writes to a directory. The new files have consecutive
numbers and hold the writes, none of them split; all but the last have reached the size
with their last write; and the position recorded after some of the writes has the others
behind it. -/
def Carries (sorting : File.NameSort) (rotateAofFileSize : Nat) (dir : List DirEntry) (m : Option Int)
    (data : List (List UInt8)) : Prop :=
  ∃ stream, DirStream.writes sorting rotateAofFileSize dir data = some stream ∧
    ∃ groups : List (List (List UInt8)), groups ≠ [] ∧
      stream.dir = dir ++ numbered (firstIdx m) (groups.map List.flatten) ∧
      groups.flatten = data ∧ (groups.map List.flatten).flatten = data.flatten ∧
      (∀ front group back, groups = front ++ group :: back → back ≠ [] → ∃ before last, group = before ++ [last] ∧
        before.flatten.length < rotateAofFileSize ∧ rotateAofFileSize ≤ group.flatten.length) ∧
      ∀ i, i ≤ data.length → ∃ then', DirStream.writes sorting rotateAofFileSize dir (data.take i) = some then' ∧
        ∃ place : Place, place.Valid (groups.map List.flatten) ∧
          then'.curRollFile = ⟨File.aofFilename (firstIdx m + place.segment), place.offset⟩ ∧
          place.behind (groups.map List.flatten) = (data.drop i).flatten

/-- Files behind others are numbered on from these. -/
theorem numbered_append (idx : Int) (front back : List (List UInt8)) :
    numbered idx (front ++ back) = numbered idx front ++ numbered (idx + front.length) back := by
  induction front generalizing idx with
  | nil => rw [List.nil_append, numbered, List.nil_append, List.length_nil, Int.natCast_zero, Int.add_zero]
  | cons contents front ih =>
    rw [List.cons_append, numbered, numbered, ih, List.cons_append, List.length_cons, Int.natCast_add, Int.add_assoc,
      Int.add_comm 1]
    rfl

/-- Each of them has one of the numbers. -/
theorem name_numbered {idx : Int} {files : List (List UInt8)} {entry : DirEntry} (member : entry ∈ numbered idx files) :
    ∃ i : Nat, i < files.length ∧ entry.name = File.aofFilename (idx + i) ∧ entry.regular = true := by
  induction files generalizing idx with
  | nil => exact absurd member List.not_mem_nil
  | cons contents files ih =>
    rcases List.mem_cons.mp member with rfl | later
    · exact ⟨0, Nat.zero_lt_succ _, by rw [Int.natCast_zero, Int.add_zero], rfl⟩
    · obtain ⟨i, bound, name, regular⟩ := ih later
      exact ⟨i + 1, Nat.succ_lt_succ bound, by rw [name, Int.natCast_add, Int.add_assoc, Int.add_comm 1]; rfl, regular⟩

/-- Each of the numbers has a file. -/
theorem numbered_mem (idx : Int) (files : List (List UInt8)) (i : Nat) (within : i < files.length) :
    ∃ entry ∈ numbered idx files, entry.name = File.aofFilename (idx + i) := by
  have split := List.take_append_drop i files
  rw [List.drop_eq_getElem_cons within] at split
  rw [← split, numbered_append, List.length_take_of_le (Nat.le_of_lt within)]
  exact ⟨_, List.mem_append_right _ List.mem_cons_self, rfl⟩

/-- The number of the first file, as the stream finds it. The listing is sorted by number, so
its last name has the largest. -/
theorem initIdx_eq {sorting : File.NameSort} {dir : List DirEntry} {m : Option Int} {list : List String}
    (listed : File.listAof sorting dir "" = some list) (largest : Largest dir m) :
    DirStream.initIdx list = if File.isInt (firstIdx m) = true then some (firstIdx m) else none := by
  obtain ⟨list', listed', names⟩ := File.listAof_readable sorting (File.readable_of_listAof listed)
  obtain rfl := Option.some.inj (listed.symm.trans listed')
  rw [DirStream.initIdx]
  cases found : list.getLast? with
  | none =>
    obtain rfl := List.getLast?_eq_none_iff.mp found
    cases m with
    | none => rfl
    | some m =>
      obtain ⟨entry, member, takes, _⟩ := largest.1
      exact absurd (names entry member takes) List.not_mem_nil
  | some last =>
    obtain ⟨⟨entry, member, rfl, takes⟩, most⟩ := File.listAof_last listed found
    obtain ⟨parsed, _⟩ := File.takesName_number takes
    cases m with
    | none => exact absurd ⟨entry, member, takes, rfl⟩ (largest (File.aofIndex entry.name))
    | some m =>
      obtain ⟨other, member', takes', number⟩ := largest.1
      have above := most other member' takes'
      have below := largest.2 _ ⟨entry, member, takes, rfl⟩
      have same : File.aofIndex entry.name = m := by omega
      dsimp only
      rw [parsed, Option.bind_some, same, DirStream.nextIdx]
      rfl

/-- There is room for a first file and `n` more: the names of the directory can be read, its
largest number is known, the new numbers are `int`s, and what has the name of a new file
would be listed. -/
structure Room (dir : List DirEntry) (m : Option Int) (n : Nat) : Prop where
  readable : ∀ entry ∈ dir, File.takesName (-1) entry ≠ none
  largest : Largest dir m
  fits : firstIdx m + n ≤ 2147483647
  free : ∀ entry ∈ dir, ∀ i : Nat, i ≤ n → entry.name = File.aofFilename (firstIdx m + i) →
    File.takesName (-1) entry = some true

namespace Room

variable {dir : List DirEntry} {m : Option Int} {n : Nat}

/-- The new numbers are `int`s. -/
theorem isInt (room : Room dir m n) {i : Nat} (within : i ≤ n) : File.isInt (firstIdx m + i) = true := by
  have upper := room.fits
  rw [File.isInt, decide_eq_true_iff]
  cases m with
  | none =>
    have first : firstIdx none = 0 := rfl
    omega
  | some m =>
    obtain ⟨⟨entry, _, takes, same⟩, _⟩ := room.largest
    have read := of_decide_eq_true (File.parseFileName_isInt (File.takesName_number takes).1)
    have first : firstIdx (some m) = m + 1 := rfl
    omega

/-- No new number is listed. -/
theorem unlisted (room : Room dir m n) (i : Nat) : ¬ Listed dir (firstIdx m + i) := by
  have largest := room.largest
  cases m with
  | none => exact largest _
  | some m =>
    intro listed
    have first : firstIdx (some m) = m + 1 := rfl
    have below := largest.2 _ listed
    omega

/-- No new name is taken at the beginning. -/
theorem fresh (room : Room dir m n) {i : Nat} (within : i ≤ n) :
    File.aofFilename (firstIdx m + i) ∉ dir.map DirEntry.name := by
  intro taken
  obtain ⟨entry, member, name⟩ := List.mem_map.mp taken
  have takes := room.free entry member i within name
  have parsed := (File.takesName_number takes).1
  rw [name, File.parseFileName_aof _ (room.isInt within)] at parsed
  have number : File.aofIndex entry.name = firstIdx m + i := by
    rw [name]
    exact (Option.some.inj parsed).symm
  exact room.unlisted i ⟨entry, member, takes, number⟩

/-- Nor is it by the new files before it. -/
theorem fresh_numbered (room : Room dir m n) (files : List (List UInt8)) (within : files.length ≤ n) :
    File.aofFilename (firstIdx m + files.length) ∉ (dir ++ numbered (firstIdx m) files).map DirEntry.name := by
  rw [List.map_append, List.mem_append, not_or]
  refine ⟨room.fresh within, fun taken => ?_⟩
  obtain ⟨entry, member, name⟩ := List.mem_map.mp taken
  obtain ⟨i, before, other, _⟩ := name_numbered member
  have same := File.aofFilename_injective (room.isInt (Nat.le_of_lt (Nat.lt_of_lt_of_le before within)))
    (room.isInt within) (other.symm.trans name)
  omega

/-- Room for one more file. -/
theorem more (room : Room dir m n) (next : File.isInt (firstIdx m + ((n + 1 : Nat) : Int)) = true)
    (untaken : File.aofFilename (firstIdx m + ((n + 1 : Nat) : Int)) ∉ dir.map DirEntry.name) : Room dir m (n + 1) := by
  refine ⟨room.readable, room.largest, (of_decide_eq_true next).2, fun entry member i within name => ?_⟩
  rcases Nat.le_succ_iff.mp within with before | rfl
  · exact room.free entry member i before name
  · exact absurd (List.mem_map.mpr ⟨entry, member, name⟩) untaken

end Room

/-- The stream has filled new files with what has been written. The files that are closed are
the full segments, and the open one is the last. -/
structure Fills (dir : List DirEntry) (first : Int) (size : Nat) (filling : Filling (List UInt8)) (stream : DirStream) :
    Prop where
  size : stream.rotateAofFileSize = size
  idx : stream.rotateAofIdx = first + filling.closed.length
  name : stream.curAofFile = File.aofFilename stream.rotateAofIdx
  written : stream.written = filling.current.flatten
  others : stream.others = dir ++ numbered first (filling.closed.map List.flatten)

namespace Fills

variable {dir : List DirEntry} {m : Option Int} {size n : Nat} {filling : Filling (List UInt8)} {stream : DirStream}

/-- The directory has the new files. -/
theorem dir_eq {first : Int} (fills : Fills dir first size filling stream) :
    stream.dir = dir ++ numbered first filling.joined := by
  rw [DirStream.dir, fills.others, fills.name, fills.idx, fills.written, Filling.joined, Filling.segments,
    List.map_append, numbered_append, List.append_assoc, List.length_map]
  rfl

/-- The recorded position is the end of the last file. -/
theorem curRollFile {first : Int} (fills : Fills dir first size filling stream) :
    stream.curRollFile = ⟨File.aofFilename (first + (Place.last filling.joined).segment),
      (Place.last filling.joined).offset⟩ := by
  have place : Place.last filling.joined = ⟨filling.closed.length, filling.current.flatten.length⟩ := by
    simp [Place.last, Filling.joined, Filling.segments]
  rw [DirStream.curRollFile, DirStream.tellp, fills.written, fills.name, fills.idx, place]

/-- The position in the open file is the weight of the open segment. -/
theorem total_eq {first : Int} (fills : Fills dir first size filling stream) :
    Filling.total List.length filling.current = stream.tellp := by
  rw [DirStream.tellp, fills.written, List.length_flatten]
  rfl

/-- The next number. -/
theorem next_idx {first : Int} (fills : Fills dir first size filling stream) :
    stream.rotateAofIdx + 1 = first + ((filling.closed.length + 1 : Nat) : Int) := by
  rw [fills.idx]
  omega

/-- A write puts one more entry into the files. The open file grows, or the write fills it and
the next number is opened. -/
theorem write (room : Room dir m n) (fills : Fills dir (firstIdx m) size filling stream) (data : List UInt8)
    (within : (filling.put List.length size data).closed.length ≤ n) :
    ∃ stream', stream.write data = some stream' ∧
      Fills dir (firstIdx m) size (filling.put List.length size data) stream' := by
  rw [Filling.put, fills.total_eq, ← fills.size] at within ⊢
  rw [DirStream.write]
  split at within
  · -- the file has reached its size: it is closed, and the next one opened
    rename_i full
    rw [List.length_append, List.length_singleton] at within
    have next : DirStream.nextIdx stream.rotateAofIdx =
        some (firstIdx m + ((filling.closed.length + 1 : Nat) : Int)) := by
      rw [DirStream.nextIdx, fills.next_idx, if_pos (room.isInt within)]
    have length : filling.joined.length = filling.closed.length + 1 := by
      rw [Filling.joined, Filling.segments, List.length_map, List.length_append, List.length_singleton]
    have fresh := room.fresh_numbered filling.joined (by rw [length]; exact within)
    rw [length, ← fills.dir_eq] at fresh
    rw [if_pos full, DirStream.rotate, next, Option.bind_some, DirStream.openFile, if_neg fresh, if_pos full]
    refine ⟨_, rfl, ?_⟩
    exact {
      size := rfl
      idx := by rw [List.length_append, List.length_singleton]
      name := rfl
      written := by rw [List.flatten_singleton, List.nil_append]
      others := by
        rw [fills.dir_eq]
        rfl }
  · rename_i room
    rw [if_neg room, if_neg room]
    refine ⟨_, rfl, ?_⟩
    exact {
      size := rfl
      idx := fills.idx
      name := fills.name
      written := by rw [fills.written, List.flatten_append, List.flatten_singleton]
      others := fills.others }

/-- The stream begins with an empty file behind the largest number. There is room for it, so no
entry has its name. -/
theorem rotateInit (sorting : File.NameSort) (size : Nat) (room : Room dir m n) :
    ∃ stream, DirStream.rotateInit sorting size dir = some stream ∧
      Fills dir (firstIdx m) size Filling.empty stream := by
  obtain ⟨list, listed, _⟩ := File.listAof_readable sorting room.readable
  have isInt := room.isInt (Nat.zero_le n)
  have fresh := room.fresh (Nat.zero_le n)
  rw [Int.natCast_zero, Int.add_zero] at isInt fresh
  rw [DirStream.rotateInit, listed, Option.bind_eq_bind, Option.bind_some, initIdx_eq listed room.largest, if_pos isInt,
    Option.bind_eq_bind, Option.bind_some, DirStream.openFile, if_neg fresh]
  refine ⟨_, rfl, ?_⟩
  exact {
    size := rfl
    idx := (Int.add_zero _).symm
    name := rfl
    written := rfl
    others := (List.append_nil _).symm }

/-- Writes put their entries into the files, as long as there is room for these. By induction on
the writes, from the last one. -/
theorem writes (sorting : File.NameSort) (room : Room dir m n) (data : List (List UInt8))
    (within : (Filling.fill List.length size data).closed.length ≤ n) :
    ∃ stream, DirStream.writes sorting size dir data = some stream ∧
      Fills dir (firstIdx m) size (Filling.fill List.length size data) stream := by
  induction data using List.reverseRecOn with
  | nil =>
    obtain ⟨stream, opened, fills⟩ := Fills.rotateInit sorting size room
    refine ⟨stream, ?_, fills⟩
    rw [DirStream.writes, opened]
    rfl
  | append_singleton data last ih =>
    obtain ⟨stream, wrote, fills⟩ := ih (Nat.le_trans (Filling.closed_le data [last]) within)
    rw [Filling.fill_snoc] at within ⊢
    obtain ⟨stream', written, fills'⟩ := fills.write room last within
    refine ⟨stream', ?_, fills'⟩
    obtain ⟨start, opened, ran⟩ := Option.bind_eq_some_iff.mp wrote
    rw [DirStream.writes, opened, Option.bind_some, run_append, ran, Option.bind_some, run_cons, written]
    rfl

end Fills

/-- A stream that has been written to had room for its files. By induction on the writes. Each
rotation has found its number free and an `int`, so the next is what was asked for. -/
theorem Room.of_writes {sorting : File.NameSort} {size : Nat} {dir : List DirEntry} {m : Option Int}
    (largest : Largest dir m) {data : List (List UInt8)} {stream : DirStream}
    (wrote : DirStream.writes sorting size dir data = some stream) :
    Room dir m (Filling.fill List.length size data).closed.length := by
  induction data using List.reverseRecOn generalizing stream with
  | nil =>
    obtain ⟨start, opened, _⟩ := Option.bind_eq_some_iff.mp wrote
    obtain ⟨list, listed, opened⟩ := Option.bind_eq_some_iff.mp opened
    obtain ⟨idx, first, opened⟩ := Option.bind_eq_some_iff.mp opened
    rw [initIdx_eq listed largest] at first
    obtain ⟨isInt, same⟩ := Option.ite_none_right_eq_some.mp first
    obtain rfl := Option.some.inj same
    obtain ⟨free, _⟩ := Option.ite_none_left_eq_some.mp opened
    have upper := (of_decide_eq_true isInt).2
    have unfilled : (Filling.fill List.length size ([] : List (List UInt8))).closed.length = 0 := rfl
    rw [unfilled]
    refine ⟨File.readable_of_listAof listed, largest, ?_, fun entry member i within name => ?_⟩
    · rw [Int.natCast_zero, Int.add_zero]
      exact upper
    · obtain rfl := Nat.le_zero.mp within
      rw [Int.natCast_zero, Int.add_zero] at name
      exact absurd (List.mem_map.mpr ⟨entry, member, name⟩) free
  | append_singleton data last ih =>
    obtain ⟨start, opened, ran⟩ := Option.bind_eq_some_iff.mp wrote
    obtain ⟨middle, ran, written⟩ := run_snoc _ _ _ _ ran
    have before : DirStream.writes sorting size dir data = some middle := by
      rw [DirStream.writes, opened]
      exact ran
    have room := ih before
    obtain ⟨middle', before', fills⟩ := Fills.writes sorting room data (Nat.le_refl _)
    obtain rfl := Option.some.inj (before.symm.trans before')
    rw [Filling.fill_snoc, Filling.put, fills.total_eq, ← fills.size]
    split
    · -- the file has been closed: the next number was an `int`, and its name free
      rename_i full
      rw [DirStream.write, if_pos full] at written
      obtain ⟨_, rotated, _⟩ := Option.bind_eq_some_iff.mp written
      obtain ⟨idx, number, opened⟩ := Option.bind_eq_some_iff.mp rotated
      obtain ⟨isInt, same⟩ := Option.ite_none_right_eq_some.mp number
      obtain rfl := Option.some.inj same
      obtain ⟨untaken, _⟩ := Option.ite_none_left_eq_some.mp opened
      rw [fills.next_idx] at isInt untaken
      rw [fills.dir_eq, List.map_append, List.mem_append, not_or] at untaken
      rw [fills.size, List.length_append, List.length_singleton]
      exact room.more isInt untaken.1
    · rw [fills.size]
      exact room

/-- The writes of a stream on a directory with room for the files that they need. The files are
the segments of a filling of that size, behind the entries that were there. -/
theorem Room.carries (sorting : File.NameSort) {size : Nat} {dir : List DirEntry} {m : Option Int}
    {data : List (List UInt8)} (positive : 0 < size)
    (room : Room dir m (Filling.fill List.length size data).closed.length) : Carries sorting size dir m data := by
  obtain ⟨stream, wrote, fills⟩ := Fills.writes sorting room data (Nat.le_refl _)
  have sound : Filling.Sound List.length size (Filling.fill List.length size data) data :=
    Filling.fill_sound positive data
  refine ⟨stream, wrote, (Filling.fill List.length size data).segments, List.concat_ne_nil _ _, fills.dir_eq,
    sound.entries, ?_, fun front group back split others => ?_, fun i within => ?_⟩
  · rw [← List.flatten_flatten, sound.entries]
  · -- a file before the last one is closed
    have member := Filling.mem_closed split others
    obtain ⟨full, before, last, same, short⟩ := sound.closed group member
    rw [Filling.total, ← List.length_flatten] at full short
    exact ⟨before, last, same, short, full⟩
  · have taken : data.take i ++ data.drop i = data := List.take_append_drop i data
    have fewer := @Filling.closed_le _ List.length size (data.take i) (data.drop i)
    rw [taken] at fewer
    obtain ⟨then', wrote', fills'⟩ := Fills.writes sorting room (data.take i) fewer
    obtain ⟨valid, behind⟩ := @Filling.joined_behind _ size (data.take i) (data.drop i)
    rw [taken] at valid behind
    exact ⟨then', wrote', _, valid, fills'.curRollFile, behind⟩

/-- The writes are carried exactly when there is room for the files that they need.

Proof: the stream opens the file behind the largest number there is, and each rotation the
next one. What is written to the files is the segmentation of the writes by size, so as many
numbers are needed as it closes segments; a number that is no `int`, or a name that is taken,
stops the stream, and nothing else does. -/
theorem carries_iff (sorting : File.NameSort) {size : Nat} {dir : List DirEntry} {m : Option Int}
    {data : List (List UInt8)} (positive : 0 < size) (largest : Largest dir m) :
    Carries sorting size dir m data ↔ Room dir m (Filling.fill List.length size data).closed.length :=
  ⟨fun ⟨_, wrote, _⟩ => Room.of_writes largest wrote, fun room => room.carries sorting positive⟩

/-- A directory with one AOF file and another one. -/
def someDir : List DirEntry := [⟨"naruto.db", true, [7]⟩, ⟨"naruto.aof.3", true, [9]⟩]

/-- Its largest number is 3; the other name is skipped. -/
theorem largest_someDir : Largest someDir (some 3) := by
  refine ⟨⟨⟨"naruto.aof.3", true, [9]⟩, by decide, by decide, by decide⟩, ?_⟩
  rintro idx ⟨entry, member, takes, rfl⟩
  rcases List.mem_cons.mp member with rfl | member
  · exact absurd takes (by decide)
  · obtain rfl := List.mem_singleton.mp member
    decide

/-- There is room for one more number behind the largest in this directory. -/
theorem room_someDir : Room someDir (some 3) 1 where
  readable := by decide
  largest := largest_someDir
  fits := by decide
  free := by decide

/-- Three writes are carried into files behind the one that is there. -/
theorem carries_someDir : Carries File.NameSort.insertion 5 someDir (some 3) [[1, 2, 3], [4, 5], [6]] :=
  (carries_iff File.NameSort.insertion (by decide) largest_someDir).mpr room_someDir

/-- Writes that do not go through are not carried. -/
theorem not_carries {sorting : File.NameSort} {size : Nat} {dir : List DirEntry} {m : Option Int}
    {data : List (List UInt8)} (stops : DirStream.writes sorting size dir data = none) :
    ¬ Carries sorting size dir m data := by
  rintro ⟨stream, wrote, _⟩
  cases stops.symm.trans wrote

/-- A directory with the last number, one with a subdirectory of the first name, and one
with a copy whose name has no number. -/
def fullDir : List DirEntry := [⟨"naruto.aof.2147483647", true, []⟩]

/-- A directory that lies under the name of the first file, -/
def takenDir : List DirEntry := [⟨"naruto.aof.0", false, []⟩]

/-- and a file whose name only begins as an AOF's does. -/
def copyDir : List DirEntry := [⟨"naruto.aof.0.bak", true, []⟩]

/-- In none of them a write goes through. The next number is no `int`, the first name is that of
a directory, or a number cannot be read. -/
theorem carries_not_always :
    (Largest fullDir (some 2147483647) ∧ ¬ Carries File.NameSort.insertion 1 fullDir (some 2147483647) [[1]]) ∧
      (Largest takenDir none ∧ ¬ Carries File.NameSort.insertion 1 takenDir none [[1]]) ∧
      (Largest copyDir none ∧ ¬ Carries File.NameSort.insertion 1 copyDir none [[1]]) := by
  refine ⟨⟨⟨⟨_, List.mem_cons_self, by decide, by decide⟩, ?_⟩, not_carries rfl⟩, ⟨?_, not_carries rfl⟩,
    ?_, not_carries rfl⟩
  · rintro idx ⟨entry, member, _, rfl⟩
    obtain rfl := List.mem_singleton.mp member
    decide
  · rintro idx ⟨entry, member, takes, _⟩
    obtain rfl := List.mem_singleton.mp member
    exact absurd takes (by decide)
  · rintro idx ⟨entry, member, takes, _⟩
    obtain rfl := List.mem_singleton.mp member
    exact absurd takes (by decide)

/-- The largest number of files that are numbered from zero on. -/
def lastIdx (files : List (List UInt8)) : Option Int :=
  if files = [] then none else some ((files.length : Int) - 1)

/-- Behind files that are numbered from zero the next number is their count. -/
theorem firstIdx_lastIdx (files : List (List UInt8)) : firstIdx (lastIdx files) = files.length := by
  rw [lastIdx]
  split
  · rename_i empty
    rw [empty]
    rfl
  · exact Int.sub_add_cancel _ _

/-- Files that are numbered from zero on are listed with their numbers. -/
theorem takes_numbered {files : List (List UInt8)} (bound : files.length ≤ 2 ^ 31) {entry : DirEntry}
    (member : entry ∈ numbered 0 files) :
    File.takesName (-1) entry = some true ∧ ∃ i : Nat, i < files.length ∧ File.aofIndex entry.name = i := by
  obtain ⟨i, within, name, regular⟩ := name_numbered member
  rw [Int.zero_add] at name
  obtain ⟨taken, number⟩ := File.takesName_aof regular name (File.isInt_nat i (by omega)) (by omega)
  exact ⟨taken, i, within, number⟩

/-- The largest number is that of the last file. The names have the numbers from zero on. -/
theorem largest_numbered {files : List (List UInt8)} (bound : files.length ≤ 2 ^ 31) :
    Largest (numbered 0 files) (lastIdx files) := by
  have below : ∀ idx, Listed (numbered 0 files) idx → ∃ i : Nat, i < files.length ∧ idx = i := by
    rintro idx ⟨entry, member, _, rfl⟩
    exact (takes_numbered bound member).2
  rw [lastIdx]
  split
  · rename_i empty
    rw [empty]
    rintro idx ⟨_, member, _⟩
    exact absurd member List.not_mem_nil
  · rename_i filled
    have positive := List.length_pos_of_ne_nil filled
    obtain ⟨entry, member, name⟩ := numbered_mem 0 files (files.length - 1) (by omega)
    rw [Int.zero_add] at name
    refine ⟨⟨entry, member, (takes_numbered bound member).1, ?_⟩, fun idx listed => ?_⟩
    · rw [File.aofIndex, name, File.parseFileName_aof _ (File.isInt_nat _ (by omega)), Option.getD_some]
      omega
    · obtain ⟨i, within, rfl⟩ := below idx listed
      omega

/-- Files that are numbered from zero on leave room up to the last `int`. -/
theorem Room.numbered (files : List (List UInt8)) (n : Nat) (bound : files.length + n < 2 ^ 31) :
    Room (numbered 0 files) (lastIdx files) n := by
  have within : files.length ≤ 2 ^ 31 := by omega
  refine ⟨fun entry member => ?_, largest_numbered within, ?_, fun entry member _ _ _ => (takes_numbered within member).1⟩
  · rw [(takes_numbered within member).1]
    exact Option.some_ne_none true
  · rw [firstIdx_lastIdx]
    omega

/-- The files of `RotateFileStream` are the segments that its writes fill. By induction on the
writes, with the open segment as the open file. -/
theorem foldl_write (size : Nat) (files : List (List Pack)) (data : List (List Pack)) :
    (data.foldl RotateFileStream.write (RotateFileStream.rotateInit size files)).rotateAofFileSize = size ∧
      (data.foldl RotateFileStream.write (RotateFileStream.rotateInit size files)).closed.map Pack.encodeAll =
        files.map Pack.encodeAll ++
          (Filling.fill List.length size (data.map Pack.encodeAll)).closed.map List.flatten ∧
      Pack.encodeAll (data.foldl RotateFileStream.write (RotateFileStream.rotateInit size files)).current =
        (Filling.fill List.length size (data.map Pack.encodeAll)).current.flatten := by
  induction data using List.reverseRecOn with
  | nil => exact ⟨rfl, (List.append_nil _).symm, rfl⟩
  | append_singleton data last ih =>
    obtain ⟨limit, closed, current⟩ := ih
    rw [List.foldl_concat, List.map_append, List.map_singleton, Filling.fill_snoc, Filling.put, RotateFileStream.write,
      limit, Filling.total, ← List.length_flatten, ← current]
    split
    · refine ⟨limit, ?_, ?_⟩
      · dsimp only [RotateFileStream.rotate]
        rw [List.map_append, List.map_append, closed, List.map_singleton, List.map_singleton, current,
          List.append_assoc]
      · dsimp only [RotateFileStream.rotate]
        rw [List.nil_append, List.flatten_singleton]
    · refine ⟨limit, closed, ?_⟩
      dsimp only
      rw [Pack.encodeAll_append, current, List.flatten_append, List.flatten_singleton]

/-- On the directory of its files, the stream in the directory does what `RotateFileStream`
does, as long as the numbers last. -/
theorem writes_files (sorting : File.NameSort) (size : Nat) (files : List (List Pack)) (data : List (List Pack))
    (bound : (data.foldl RotateFileStream.write (RotateFileStream.rotateInit size files)).closed.length < 2 ^ 31) :
    ∃ stream, DirStream.writes sorting size (numbered 0 (files.map Pack.encodeAll)) (data.map Pack.encodeAll) =
      some stream ∧
      stream.dir = numbered 0
        ((data.foldl RotateFileStream.write (RotateFileStream.rotateInit size files)).files.map Pack.encodeAll) ∧
      stream.curRollFile =
        ⟨File.genAofFilename (data.foldl RotateFileStream.write (RotateFileStream.rotateInit size files)).closed.length,
          (data.foldl RotateFileStream.write (RotateFileStream.rotateInit size files)).curRollFile.offset⟩ := by
  obtain ⟨_, closed, current⟩ := foldl_write size files data
  have count := congrArg List.length closed
  rw [List.length_map, List.length_append, List.length_map, List.length_map] at count
  have room := Room.numbered (files.map Pack.encodeAll)
    (Filling.fill List.length size (data.map Pack.encodeAll)).closed.length (by rw [List.length_map]; omega)
  obtain ⟨stream, wrote, fills⟩ := Fills.writes sorting room (data.map Pack.encodeAll) (Nat.le_refl _)
  rw [firstIdx_lastIdx] at fills
  refine ⟨stream, wrote, ?_, ?_⟩
  · have split := numbered_append 0 (files.map Pack.encodeAll)
      (Filling.fill List.length size (data.map Pack.encodeAll)).joined
    rw [Int.zero_add] at split
    rw [fills.dir_eq, ← split, Filling.joined, Filling.segments, List.map_append, ← List.append_assoc, ← closed,
      RotateFileStream.files, List.map_append, List.map_singleton, List.map_singleton, current]
  · rw [DirStream.curRollFile, DirStream.tellp, fills.written, fills.name, fills.idx, ← current, List.length_map,
      ← Int.natCast_add, ← count, File.aofFilename_nat]
    rfl

end Naruto.Sink
