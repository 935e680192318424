import Naruto.Sink.RotateDirectory

/-!
# The readers of the AOF files

At its start the server reads the AOF files that `listAof` lists; the incremental reader goes
from a file to the next with `hasNextAof`. In a directory that starts and rotations of the
server have filled, the files are numbered from zero on without a gap, and both readers
visit the same files in the order of the numbers, as long as the number behind the last
one is an `int`.
-/

namespace Naruto.Sink

open Naruto.Theory Naruto.Utils

/-- What can be opened in a directory, by its name. -/
def openIn (dir : List DirEntry) : Dir := fun name =>
  (dir.find? fun entry => entry.name = name).map DirEntry.contents

/-- The names that the incremental reader visits from one on, until `hasNextAof` fails. -/
inductive Follows (dir : Dir) : String → List String → Prop
  | last {name : String} (ends : File.hasNextAof dir name = some none) : Follows dir name [name]
  | next {name following : String} {names : List String} (has : File.hasNextAof dir name = some (some following))
      (later : Follows dir following names) : Follows dir name (name :: names)

/-- The server's directory, with its stream while it runs. -/
inductive Host
  | stopped (dir : List DirEntry)
  | running (stream : DirStream)

/-- The directory. -/
def Host.dir : Host → List DirEntry
  | .stopped dir => dir
  | .running stream => stream.dir

/-- A start of the server, with the order in which `readdir` lists the directory, a rotation
and a write of its stream. -/
inductive HostEvent
  | start (listing : List DirEntry) (rotateAofFileSize : Nat)
  | rotate
  | write (data : List UInt8)

/-- One of them. A start takes the listing in any order, and goes on with the number behind the
largest. -/
def serve (sorting : File.NameSort) (host : Host) : HostEvent → Option Host
  | .start listing size =>
    if listing.Perm host.dir then (DirStream.rotateInit sorting size listing).map Host.running else none
  | .rotate =>
    match host with
    | .stopped _ => none
    | .running stream => stream.rotate.map Host.running
  | .write data =>
    match host with
    | .stopped _ => none
    | .running stream => (stream.write data).map Host.running

/-- The names of the AOF files of the numbers from `i` to `n - 1`. -/
def aofNames (i n : Nat) : List String := (List.range' i (n - i)).map File.genAofFilename

/-- The AOF files are those of the first `n` numbers. -/
def Contiguous (dir : List DirEntry) (n : Nat) : Prop :=
  ((dir.map DirEntry.name).filter File.findsAof).Perm (aofNames 0 n)

/-- From each of the first `n` AOF files on, the reader of the start visits the files in the order
of their numbers, whatever the order of the directory. -/
def StartReads (sorting : File.NameSort) (dir : List DirEntry) (n : Nat) : Prop :=
  ∀ i, i < n → ∀ listing : List DirEntry, listing.Perm dir →
    File.listAof sorting listing (File.genAofFilename i) = some (aofNames i n)

/-- So does the incremental reader. -/
def IncrementalReads (dir : List DirEntry) (n : Nat) : Prop :=
  ∀ i, i < n → ∀ listing : List DirEntry, listing.Perm dir →
    Follows (openIn listing) (File.genAofFilename i) (aofNames i n)

/-- The files are numbered from zero on, and the two readers agree on them. -/
def ReadersAgree (sorting : File.NameSort) (dir : List DirEntry) : Prop :=
  ∃ n, Contiguous dir n ∧ StartReads sorting dir n ∧ IncrementalReads dir n

/-- The first of the names. -/
theorem aofNames_cons {i n : Nat} (more : i < n) : aofNames i n = File.genAofFilename i :: aofNames (i + 1) n := by
  have length : n - i = n - (i + 1) + 1 := by omega
  rw [aofNames, length, List.range'_succ, List.map_cons, aofNames]

/-- No name is between a number and itself. -/
theorem aofNames_nil (n : Nat) : aofNames n n = [] := by simp [aofNames]

/-- The names between two numbers are those of the numbers from the first up to the second. -/
theorem mem_aofNames {i n : Nat} {name : String} :
    name ∈ aofNames i n ↔ ∃ j, i ≤ j ∧ j < n ∧ File.genAofFilename j = name := by
  simp only [aofNames, List.mem_map, List.mem_range'_1]
  constructor
  · rintro ⟨j, ⟨first, within⟩, same⟩
    exact ⟨j, first, by omega, same⟩
  · rintro ⟨j, first, within, same⟩
    exact ⟨j, ⟨first, by omega⟩, same⟩

/-- The names of files that are numbered from zero on. -/
theorem names_numbered (i : Nat) (files : List (List UInt8)) :
    (numbered i files).map DirEntry.name = aofNames i (i + files.length) := by
  induction files generalizing i with
  | nil => simp [numbered, aofNames]
  | cons contents files ih =>
    have next : (i : Int) + 1 = ((i + 1 : Nat) : Int) := rfl
    have length : i + (contents :: files).length = i + 1 + files.length := by
      rw [List.length_cons]
      omega
    rw [length, aofNames_cons (by omega), numbered, List.map_cons, next, ih]
    rfl

/-- The names that the loop over `readdir` collects, when none of them makes it throw. -/
theorem readAof_eq {afterIdx : Int} {dir : List DirEntry} (takes : DirEntry → Bool)
    (decided : ∀ entry ∈ dir, File.takesName afterIdx entry = some (takes entry)) :
    File.readAof afterIdx dir = some ((dir.filter takes).map DirEntry.name) := by
  induction dir with
  | nil => rfl
  | cons entry dir ih =>
    have here := decided entry List.mem_cons_self
    have later := ih fun other member => decided other (List.mem_cons_of_mem _ member)
    cases taken : takes entry <;> simp [File.readAof, here, later, taken]

/-- The numbers of AOF files increase. -/
theorem aofNames_increasing {i n : Nat} (bound : n ≤ 2 ^ 31) :
    (aofNames i n).Pairwise fun x y => File.aofIndex x < File.aofIndex y := by
  rw [aofNames, List.pairwise_map]
  refine (@List.pairwise_lt_range' i (n - i) 1 Nat.one_pos).imp_of_mem fun {j k} first second less => ?_
  have within := List.mem_range'_1.mp first
  have within' := List.mem_range'_1.mp second
  rw [File.aofIndex, File.aofIndex, File.parseFileName_gen j (by omega), File.parseFileName_gen k (by omega),
    Option.getD_some, Option.getD_some]
  omega

/-- Names in the order of different numbers are the sorted ones. -/
theorem sort_eq (sorting : File.NameSort) {names ordered : List String} (perm : names.Perm ordered)
    (increasing : ordered.Pairwise fun x y => File.aofIndex x < File.aofIndex y) : sorting.sort names = ordered := by
  have same := (sorting.perm names).trans perm
  have forwards : ordered.Pairwise fun x y => File.aofIndex x = File.aofIndex y → x = y :=
    increasing.imp fun less equal => absurd equal (Int.ne_of_lt less)
  have backwards : ordered.Pairwise (flip fun x y => File.aofIndex x = File.aofIndex y → x = y) :=
    increasing.imp fun less equal => absurd equal.symm (Int.ne_of_lt less)
  have different := List.Pairwise.forall_of_forall_of_flip (fun _ _ _ => rfl) forwards backwards
  refine List.Perm.eq_of_pairwise (fun x y first second below above => ?_) (sorting.sorted names)
    (increasing.imp Int.le_of_lt) same
  exact different (same.subset first) second (Int.le_antisymm below above)

/-- The entry is an AOF file with a number from `first` on. -/
def isFrom (first : Nat) (entry : DirEntry) : Bool :=
  File.findsAof entry.name && decide ((first : Int) ≤ File.aofIndex entry.name)

section Listing

variable {rest listing : List DirEntry} {files : List (List UInt8)}

/-- What `listAof` makes of the entries of such a directory. The other names do not have `aof`
in them, and those of the files have their numbers. -/
theorem takesName_listing (other : ∀ entry ∈ rest, File.findsAof entry.name = false) (bound : files.length ≤ 2 ^ 31)
    (first : Nat) {entry : DirEntry} (member : entry ∈ rest ++ numbered 0 files) :
    File.takesName first entry = some (isFrom first entry) := by
  rcases List.mem_append.mp member with before | behind
  · have unnamed := other entry before
    simp [File.takesName, isFrom, unnamed]
  · obtain ⟨taken, i, within, number⟩ := takes_numbered bound behind
    obtain ⟨_, _, name, regular⟩ := name_numbered behind
    have found : File.findsAof entry.name = true := by rw [name, File.findsAof_aof]
    have positive : (i : Int) ≠ -1 := by omega
    have positive' : (first : Int) ≠ -1 := by omega
    obtain ⟨parsed, _⟩ := File.takesName_number taken
    rw [number] at parsed
    simp [File.takesName, isFrom, regular, found, parsed, number, positive, positive']

/-- The names of such a directory. -/
theorem names_listing (perm : listing.Perm (rest ++ numbered 0 files)) :
    (listing.map DirEntry.name).Perm (rest.map DirEntry.name ++ aofNames 0 files.length) := by
  have names := perm.map DirEntry.name
  have numbers := names_numbered 0 files
  rw [Nat.zero_add] at numbers
  rw [List.map_append] at names
  exact numbers ▸ names

/-- The name of a number is there exactly when the number is below the number of files. -/
theorem mem_names (other : ∀ entry ∈ rest, File.findsAof entry.name = false)
    (perm : listing.Perm (rest ++ numbered 0 files)) (j : Nat) :
    File.genAofFilename j ∈ listing.map DirEntry.name ↔ j < files.length := by
  rw [(names_listing perm).mem_iff, List.mem_append, mem_aofNames]
  constructor
  · rintro (before | ⟨k, _, within, same⟩)
    · obtain ⟨entry, member, name⟩ := List.mem_map.mp before
      have unnamed := other entry member
      rw [name, ← File.aofFilename_nat, File.findsAof_aof] at unnamed
      cases unnamed
    · obtain rfl := File.genAofFilename_injective k j same
      exact within
  · exact fun within => Or.inr ⟨j, Nat.zero_le j, within, rfl⟩

/-- The AOF files of such a directory. -/
theorem contiguous (other : ∀ entry ∈ rest, File.findsAof entry.name = false)
    (perm : listing.Perm (rest ++ numbered 0 files)) : Contiguous listing files.length := by
  have unnamed : (rest.map DirEntry.name).filter File.findsAof = [] := by
    simpa [List.filter_eq_nil_iff] using other
  have named : (aofNames 0 files.length).filter File.findsAof = aofNames 0 files.length := by
    refine List.filter_eq_self.mpr fun name member => ?_
    obtain ⟨j, _, _, rfl⟩ := mem_aofNames.mp member
    exact File.findsAof_aof j
  have kept := (names_listing perm).filter File.findsAof
  rw [List.filter_append, unnamed, named, List.nil_append] at kept
  exact kept

/-- The largest number of such a directory. The entries that count are those of the files. -/
theorem largest_listing (other : ∀ entry ∈ rest, File.findsAof entry.name = false) (bound : files.length ≤ 2 ^ 31)
    (perm : listing.Perm (rest ++ numbered 0 files)) : Largest listing (lastIdx files) := by
  have same : ∀ idx, Listed listing idx ↔ Listed (numbered 0 files) idx := by
    intro idx
    constructor
    · rintro ⟨entry, member, takes, number⟩
      rcases List.mem_append.mp (perm.mem_iff.mp member) with before | behind
      · simp [File.takesName, other entry before] at takes
      · exact ⟨entry, behind, takes, number⟩
    · rintro ⟨entry, member, takes, number⟩
      exact ⟨entry, perm.mem_iff.mpr (List.mem_append_right _ member), takes, number⟩
  have largest := largest_numbered bound
  cases last : lastIdx files with
  | none =>
    rw [last] at largest
    exact fun idx listed => largest idx ((same idx).mp listed)
  | some m =>
    rw [last] at largest
    exact ⟨(same m).mpr largest.1, fun idx listed => largest.2 idx ((same idx).mp listed)⟩

/-- The files from a number on. Those before it are filtered out, and the others stay in order.
-/
theorem filter_numbered (bound : files.length ≤ 2 ^ 31) {first : Nat} (within : first ≤ files.length) :
    ((numbered 0 files).filter (isFrom first)).map DirEntry.name = aofNames first files.length := by
  have number : ∀ {entry} (start : Nat) (part : List (List UInt8)), start + part.length ≤ 2 ^ 31 →
      entry ∈ numbered start part → ∃ i, i < part.length ∧ File.findsAof entry.name = true ∧
        File.aofIndex entry.name = ((start + i : Nat) : Int) := by
    intro entry start part short member
    obtain ⟨i, inside, name, _⟩ := name_numbered member
    refine ⟨i, inside, by rw [name, File.findsAof_aof], ?_⟩
    rw [File.aofIndex, name, ← Int.natCast_add, File.parseFileName_aof _ (File.isInt_nat _ (by omega)),
      Option.getD_some]
  have early : (files.take first).length = first := List.length_take_of_le within
  have late : (files.drop first).length = files.length - first := List.length_drop
  have parts := numbered_append 0 (files.take first) (files.drop first)
  rw [List.take_append_drop, early, Int.zero_add] at parts
  have before : (numbered 0 (files.take first)).filter (isFrom first) = [] := by
    refine List.filter_eq_nil_iff.mpr fun entry member => ?_
    obtain ⟨i, inside, _, same⟩ := number 0 (files.take first) (by omega) member
    simp [isFrom, same]
    omega
  have behind : (numbered first (files.drop first)).filter (isFrom first) = numbered first (files.drop first) := by
    refine List.filter_eq_self.mpr fun entry member => ?_
    obtain ⟨i, _, found, same⟩ := number first (files.drop first) (by omega) member
    have upper : (first : Int) ≤ ((first + i : Nat) : Int) := by omega
    simp only [isFrom, found, same, upper, decide_true, Bool.and_self]
  have names := names_numbered first (files.drop first)
  rw [late, Nat.add_sub_cancel' within] at names
  rw [parts, List.filter_append, before, behind, List.nil_append, names]

/-- The reader of the start. It lists the names from that of the position on, and sorts them by
number. -/
theorem startReads (sorting : File.NameSort) (other : ∀ entry ∈ rest, File.findsAof entry.name = false)
    (bound : files.length ≤ 2 ^ 31) (perm : listing.Perm (rest ++ numbered 0 files)) :
    StartReads sorting listing files.length := by
  intro i within shuffled same
  have listed := same.trans perm
  have unnamed : rest.filter (isFrom i) = [] := by
    simpa [List.filter_eq_nil_iff, isFrom] using fun entry member found =>
      absurd ((other entry member).symm.trans found) Bool.false_ne_true
  have read := readAof_eq _ fun entry member => takesName_listing other bound i (listed.mem_iff.mp member)
  have taken := (listed.filter (isFrom i)).map DirEntry.name
  rw [List.filter_append, unnamed, List.nil_append, filter_numbered bound (Nat.le_of_lt within)] at taken
  have parsed := File.parseFileName_gen i (by omega)
  have sorted := sort_eq sorting taken (aofNames_increasing bound)
  simp [File.listAof, File.genAofFilename_ne_empty, parsed, read, sorted]

/-- A name can be opened exactly when it is there. -/
theorem openIn_isSome (dir : List DirEntry) (name : String) :
    (openIn dir name).isSome = true ↔ name ∈ dir.map DirEntry.name := by
  simp [openIn]

/-- The incremental reader, as long as the number behind the last one is an `int`. By induction on
the number of files that are still to be visited. -/
theorem incrementalReads (other : ∀ entry ∈ rest, File.findsAof entry.name = false) (bound : files.length < 2 ^ 31)
    (perm : listing.Perm (rest ++ numbered 0 files)) : IncrementalReads listing files.length := by
  intro i within shuffled same
  have listed := same.trans perm
  have probed : ∀ j, j < files.length → File.hasNextAof (openIn shuffled) (File.genAofFilename j) =
      some (if j + 1 < files.length then some (File.genAofFilename (j + 1)) else none) := by
    intro j inside
    rw [File.hasNextAof_gen _ _ (by omega)]
    simp only [openIn_isSome, mem_names other listed]
  obtain ⟨left, total⟩ : ∃ left, i + 1 + left = files.length := ⟨files.length - (i + 1), by omega⟩
  induction left generalizing i with
  | zero =>
    have ends := probed i within
    rw [if_neg (by omega)] at ends
    rw [aofNames_cons within, show i + 1 = files.length from total, aofNames_nil]
    exact .last ends
  | succ left ih =>
    have more : i + 1 < files.length := by omega
    have has := probed i within
    rw [if_pos more] at has
    rw [aofNames_cons within]
    exact .next has (ih (i + 1) more (by omega))

/-- The incremental reader has got an answer at each name that it visits. -/
theorem Follows.answered {dir : Dir} {name : String} {names : List String} (follows : Follows dir name names) :
    File.hasNextAof dir name ≠ none := by
  cases follows with
  | last ends =>
    rw [ends]
    exact Option.some_ne_none _
  | next has later =>
    rw [has]
    exact Option.some_ne_none _

/-- The number behind the last `int` is none. -/
theorem hasNextAof_last (dir : Dir) {j : Nat} (last : j + 1 = 2 ^ 31) :
    File.hasNextAof dir (File.genAofFilename j) = none := by
  have parsed := File.parseFileName_gen j (by omega)
  have numbered : ¬ (j : Int) = -1 := by omega
  have outside : ¬ File.isInt ((j : Int) + 1) = true := by
    rw [File.isInt, decide_eq_true_iff]
    omega
  have next : File.nextAof (File.genAofFilename j) = none := by
    rw [File.nextAof, parsed, Option.bind_eq_bind, Option.bind_some, if_neg numbered, if_neg outside]
  rw [File.hasNextAof, next]
  rfl

/-- With the last number the incremental reader goes wrong. -/
theorem not_incrementalReads (full : files.length = 2 ^ 31) : ¬ IncrementalReads listing files.length := by
  intro reads
  obtain ⟨j, last⟩ : ∃ j, j + 1 = files.length := ⟨files.length - 1, by omega⟩
  have follows := reads j (by omega) listing (List.Perm.refl listing)
  exact follows.answered (hasNextAof_last _ (last.trans full))

end Listing

/-- The directory of a host that has made some AOF files: they are numbered from zero on, and the
last one is open while the server runs. -/
inductive Made (rest : List DirEntry) : Host → List (List UInt8) → Prop
  | stopped {dir : List DirEntry} {files : List (List UInt8)} (perm : dir.Perm (rest ++ numbered 0 files)) :
    Made rest (.stopped dir) files
  | running {stream : DirStream} {closed : List (List UInt8)} (idx : stream.rotateAofIdx = closed.length)
      (name : stream.curAofFile = File.aofFilename closed.length)
      (perm : stream.others.Perm (rest ++ numbered 0 closed)) :
    Made rest (.running stream) (closed ++ [stream.written])

namespace Made

variable {rest : List DirEntry} {host : Host} {files : List (List UInt8)}

/-- The directory of a host that has made its files is what was there and the files, in some
order. -/
theorem perm (made : Made rest host files) : host.dir.Perm (rest ++ numbered 0 files) := by
  cases made with
  | stopped perm => exact perm
  | @running stream closed idx name perm =>
    have current : numbered closed.length [stream.written] = [⟨stream.curAofFile, true, stream.written⟩] := by
      rw [numbered, numbered, name]
    rw [Host.dir, DirStream.dir, numbered_append, Int.zero_add, current, ← List.append_assoc]
    exact perm.append_right _

/-- A new file behind those that are there. -/
theorem openFile {size : Nat} {listing : List DirEntry} {stream : DirStream}
    (perm : listing.Perm (rest ++ numbered 0 files))
    (opened : DirStream.openFile size listing files.length = some stream) :
    Made rest (.running stream) (files ++ [[]]) := by
  obtain ⟨_, same⟩ := Option.ite_none_left_eq_some.mp opened
  obtain rfl := Option.some.inj same
  exact .running rfl rfl perm

/-- A start begins a new file. -/
theorem rotateInit {sorting : File.NameSort} {size : Nat} {listing : List DirEntry} {stream : DirStream}
    (other : ∀ entry ∈ rest, File.findsAof entry.name = false) (bound : files.length ≤ 2 ^ 31)
    (perm : listing.Perm (rest ++ numbered 0 files))
    (started : DirStream.rotateInit sorting size listing = some stream) :
    files.length < 2 ^ 31 ∧ Made rest (.running stream) (files ++ [[]]) := by
  obtain ⟨list, listed, started⟩ := Option.bind_eq_some_iff.mp started
  obtain ⟨idx, first, opened⟩ := Option.bind_eq_some_iff.mp started
  rw [initIdx_eq listed (largest_listing other bound perm), firstIdx_lastIdx] at first
  obtain ⟨isInt, same⟩ := Option.ite_none_right_eq_some.mp first
  obtain rfl := Option.some.inj same
  have upper := (of_decide_eq_true isInt).2
  exact ⟨by omega, openFile perm opened⟩

/-- The next number is that of the files. -/
theorem next_idx {stream : DirStream} (made : Made rest (.running stream) files) :
    stream.rotateAofIdx + 1 = files.length := by
  cases made with
  | running idx name perm =>
    rw [idx, List.length_append, List.length_singleton]
    omega

/-- So does a rotation. -/
theorem rotate {stream stream' : DirStream} (made : Made rest (.running stream) files)
    (rotated : stream.rotate = some stream') :
    files.length < 2 ^ 31 ∧ Made rest (.running stream') (files ++ [[]]) := by
  obtain ⟨idx, next, opened⟩ := Option.bind_eq_some_iff.mp rotated
  obtain ⟨isInt, same⟩ := Option.ite_none_right_eq_some.mp next
  obtain rfl := Option.some.inj same
  rw [made.next_idx] at isInt opened
  have upper := (of_decide_eq_true isInt).2
  exact ⟨by omega, openFile made.perm opened⟩

/-- What is written goes to the open file. -/
theorem written {stream : DirStream} (made : Made rest (.running stream) files) (data : List UInt8) :
    ∃ files', files'.length = files.length ∧
      Made rest (.running { stream with written := stream.written ++ data }) files' := by
  cases made with
  | @running stream closed idx name perm =>
    refine ⟨closed ++ [stream.written ++ data], ?_, .running idx name perm⟩
    rw [List.length_append, List.length_append, List.length_singleton, List.length_singleton]

/-- A step of the server. A start opens the next number, a write appends or rotates, and each
adds files with the next numbers only. -/
theorem serve {sorting : File.NameSort} {host' : Host} {event : HostEvent}
    (other : ∀ entry ∈ rest, File.findsAof entry.name = false) (bound : files.length ≤ 2 ^ 31)
    (made : Made rest host files) (served : serve sorting host event = some host') :
    ∃ files', files'.length ≤ 2 ^ 31 ∧ Made rest host' files' := by
  have length : (files ++ [[]]).length = files.length + 1 := List.length_append
  cases event with
  | start listing size =>
    obtain ⟨same, began⟩ := Option.ite_none_right_eq_some.mp served
    obtain ⟨stream, started, rfl⟩ := Option.map_eq_some_iff.mp began
    obtain ⟨room, made'⟩ := rotateInit other bound (same.trans made.perm) started
    exact ⟨_, by omega, made'⟩
  | rotate =>
    cases host with
    | stopped dir => cases served
    | running stream =>
      obtain ⟨stream', rotated, rfl⟩ := Option.map_eq_some_iff.mp served
      obtain ⟨room, made'⟩ := made.rotate rotated
      exact ⟨_, by omega, made'⟩
  | write data =>
    cases host with
    | stopped dir => cases served
    | running stream =>
      obtain ⟨stream', wrote, rfl⟩ := Option.map_eq_some_iff.mp served
      rw [DirStream.write] at wrote
      split at wrote
      · obtain ⟨current, rotated, same⟩ := Option.bind_eq_some_iff.mp wrote
        obtain rfl := Option.some.inj same
        obtain ⟨room, made'⟩ := made.rotate rotated
        obtain ⟨files', same, made''⟩ := made'.written data
        exact ⟨files', by omega, made''⟩
      · obtain rfl := Option.some.inj wrote
        obtain ⟨files', same, made'⟩ := made.written data
        exact ⟨files', by omega, made'⟩

end Made

/-- In a directory that the server has filled, the AOF files are numbered from zero on and the
reader of the start visits them in the order of their numbers. The incremental reader visits
the same ones unless one has the number 2147483647, whose successor is no `int`.

Proof: the directory is, in some order, what was there before and the files of the server,
numbered from zero; every start, write and rotation keeps that. The names sort by their
numbers, since the comparison parses them, and the incremental reader asks for each next
number by its name. -/
theorem served_readers (sorting : File.NameSort) (dir : List DirEntry) (events : List HostEvent) (host : Host)
    (other : ∀ entry ∈ dir, File.findsAof entry.name = false)
    (ran : run (serve sorting) (.stopped dir) events = some host) :
    ∃ n, Contiguous host.dir n ∧ StartReads sorting host.dir n ∧
      (IncrementalReads host.dir n ↔ File.genAofFilename 2147483647 ∉ host.dir.map DirEntry.name) := by
  obtain ⟨files, bound, made⟩ := run_preserves (fun host => ∃ files, files.length ≤ 2 ^ 31 ∧ Made dir host files)
    (fun host event host' ⟨files, bound, made⟩ served => made.serve other bound served) _ host events
    ⟨[], Nat.zero_le _, .stopped (by simp [numbered])⟩ ran
  refine ⟨files.length, contiguous other made.perm, startReads sorting other bound made.perm, ?_⟩
  rw [mem_names other made.perm]
  constructor
  · intro reads full
    exact not_incrementalReads (by omega) reads
  · exact fun room => incrementalReads other (by omega) made.perm

/-- A start, some writes and a start that finds the directory in another order. -/
def someEvents : List HostEvent :=
  [.start [⟨"naruto.db", true, [7]⟩] 2, .write [1, 2], .write [3],
    .start [⟨"naruto.aof.1", true, [3]⟩, ⟨"naruto.aof.0", true, [1, 2]⟩, ⟨"naruto.db", true, [7]⟩] 2]

/-- The theorem of the readers at a host that starts again, with a foreign file beside its own. -/
theorem served_readers_restarted : ∃ host,
    run (serve File.NameSort.insertion) (.stopped [⟨"naruto.db", true, [7]⟩]) someEvents = some host ∧
      ∃ n, Contiguous host.dir n ∧ StartReads File.NameSort.insertion host.dir n ∧
        (IncrementalReads host.dir n ↔ File.genAofFilename 2147483647 ∉ host.dir.map DirEntry.name) :=
  ⟨_, rfl, served_readers _ [⟨"naruto.db", true, [7]⟩] someEvents _ (by decide) rfl⟩

/-- Rotations of a server that has begun in an empty directory, up to the last number. By
induction on the rotations: the number goes on by one. -/
theorem run_rotations (k : Nat) (bound : k < 2 ^ 31) :
    ∃ stream files, run (serve File.NameSort.insertion) (.stopped []) (.start [] 1 :: List.replicate k .rotate) =
      some (.running stream) ∧ Made [] (.running stream) files ∧ files.length = k + 1 := by
  induction k with
  | zero => exact ⟨_, [[]], rfl, @Made.running [] ⟨1, 0, File.aofFilename 0, [], []⟩ [] rfl rfl (List.Perm.refl _), rfl⟩
  | succ k ih =>
    obtain ⟨stream, files, ran, made, count⟩ := ih (by omega)
    have number : stream.rotateAofIdx + 1 = files.length := made.next_idx
    have isInt := File.isInt_nat files.length (by omega)
    have fresh : File.aofFilename files.length ∉ stream.dir.map DirEntry.name := by
      have other : ∀ entry ∈ ([] : List DirEntry), File.findsAof entry.name = false :=
        fun _ member => absurd member List.not_mem_nil
      exact fun taken => Nat.lt_irrefl _ ((mem_names other made.perm files.length).mp taken)
    obtain ⟨stream', rotated⟩ : ∃ stream', stream.rotate = some stream' := by
      rw [DirStream.rotate, DirStream.nextIdx, number, if_pos isInt, Option.bind_some, DirStream.openFile,
        if_neg fresh]
      exact ⟨_, rfl⟩
    obtain ⟨_, made'⟩ := made.rotate rotated
    have stepped : serve File.NameSort.insertion (.running stream) .rotate = some (.running stream') := by
      rw [serve, rotated]
      rfl
    refine ⟨stream', _, ?_, made', ?_⟩
    · rw [List.replicate_succ', ← List.cons_append, run_append, ran, Option.bind_some, run_cons, stepped]
      rfl
    · rw [List.length_append, List.length_singleton, count]

/-- A server that has rotated up to the last number. -/
theorem readers_not_agree : ¬ ∀ (sorting : File.NameSort) (dir : List DirEntry) (events : List HostEvent) (host : Host),
    (∀ entry ∈ dir, File.findsAof entry.name = false) → run (serve sorting) (.stopped dir) events = some host →
      ReadersAgree sorting host.dir := by
  intro agree
  obtain ⟨stream, files, ran, made, count⟩ := run_rotations 2147483647 (by decide)
  have other : ∀ entry ∈ ([] : List DirEntry), File.findsAof entry.name = false :=
    fun _ member => absurd member List.not_mem_nil
  obtain ⟨n, numbers, _, reads⟩ := agree _ _ _ _ other ran
  have same := numbers.symm.trans (contiguous other made.perm)
  have length : n = files.length := by simpa [aofNames] using same.length_eq
  rw [length] at reads
  exact not_incrementalReads (by omega) reads

end Naruto.Sink
