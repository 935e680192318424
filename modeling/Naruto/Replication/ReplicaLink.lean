import Naruto.Theory.Runs
import Naruto.Theory.SegmentedLog
import Naruto.Utils.AofName
import Naruto.Utils.File

/-!
# The incremental sender

A timer of the master calls `onSendIncrToSlave` for every slave. It reads at most
16 KiB of the AOF from the slave's cursor in blocks of 4096 bytes, collects the
packets the packet loop takes into one `REPL_MULTI` message, and moves the cursor
by the bytes it has read, or to the next file when it has met the end of one and
the next exists. Bytes read and packets taken agree only when the window it reads
ends on a packet boundary and its blocks do not divide a packet.
-/

namespace Naruto.Replication

open Naruto.Theory Naruto.Utils Naruto.Utils.File

/-- `transfer_len`. -/
def transferLen : Nat := 16384

/-- The part of a `replicaLink` that the sender reads and writes: the cursor. -/
structure ReplicaLink where
  replAofFileName : String
  replAofOff : Nat
deriving DecidableEq, Repr

/-- `client::command_aof`. -/
structure CommandAof where
  aofName : String
  aofOff : Nat
  types : List UInt16
  commands : List (List UInt8)
deriving DecidableEq, Repr

/-- The string a `char*` argument makes: it ends before the first zero byte. -/
def cString (msg : List UInt8) : List UInt8 := msg.takeWhile (· != 0)

/-- The state of the read loop when it ends. -/
structure Sending where
  eof : Bool
  readed : Nat
  buffer : Bytes
  calls : List Call

/-- The read loop of `onSendIncrToSlave`, with `rest` still to be read. Each pass reads a block
into the buffer and takes the packets that are whole; the loop ends at the end of the file or
when it has read enough. -/
def sendLoop (rest : List UInt8) (readed : Nat) (buffer : Bytes) : Option Sending := do
  let buffer ← buffer.putBytes (rest.take blockSize)
  let inner := packLoop buffer
  let readed := readed + (rest.take blockSize).length
  if rest.length < blockSize ∨ transferLen ≤ readed then
    some ⟨decide (rest.length < blockSize), readed, inner.1, inner.2⟩
  else do
    let later ← sendLoop (rest.drop blockSize) readed inner.1
    some { later with calls := inner.2 ++ later.calls }
termination_by rest.length
decreasing_by
  have positive : 0 < blockSize := by decide
  rw [List.length_drop]
  omega

/-- The `while` loop behind a `seekg` that goes well and `peek`: not entered when `peek`
has met the end of the file. -/
def readWindow (rest : List UInt8) : Option Sending :=
  if rest = [] then some ⟨true, 0, Bytes.cleared, []⟩ else sendLoop rest 0 Bytes.cleared

/-- The cursor update: offset zero in the next file, or the bytes read further on. -/
def moveCursor (link : ReplicaLink) (next : Option String) (readed : Nat) : ReplicaLink :=
  match next with
  | some next => ⟨next, 0⟩
  | none => { link with replAofOff := link.replAofOff + readed }

/-- `in.eof() && hasNextAof(...)`: the next file's name when the cursor goes there. -/
def nextFile (dir : Dir) (link : ReplicaLink) (sending : Sending) : Option (Option String) :=
  if sending.eof then hasNextAof dir link.replAofFileName else some none

/-- What follows the read loop: the cursor moves, and what the buffer yielded is
queued together with the new cursor unless nothing was read. -/
def finishSending (dir : Dir) (link : ReplicaLink) (sending : Sending) :
    Option (ReplicaLink × Option CommandAof) := do
  let next ← nextFile dir link sending
  let link' := moveCursor link next sending.readed
  if sending.buffer.size = 0 then some (link', none)
  else some (link', some
    { aofName := link'.replAofFileName
      aofOff := link'.replAofOff
      types := sending.calls.map Call.type
      commands := sending.calls.map fun call => cString call.msg })

/-- `onSendIncrToSlave`: the link afterwards and the message it queues, for a cursor
whose offset `seekg` takes. Nothing when `std::stoi` throws on the file name or a copy is
undefined. -/
def onSendIncrToSlave (dir : Dir) (link : ReplicaLink) : Option (ReplicaLink × Option CommandAof) :=
  if link.replAofFileName = "" then some (link, none)
  else match dir link.replAofFileName with
    | none => some (link, none)
    | some contents =>
      if contents = [] then do
        match ← hasNextAof dir link.replAofFileName with
        | some next => some (⟨next, 0⟩, none)
        | none => some (link, none)
      else do
        let sending ← readWindow (contents.drop link.replAofOff)
        finishSending dir link sending

/-- The packets before a boundary are those within its bytes. -/
theorem whole_boundary (front back : List Pack) :
    Pack.whole (Pack.encodeAll front).length (front ++ back) = front := by
  have nothing : Pack.whole 0 back = [] := by
    cases back with
    | nil => rfl
    | cons p back =>
      have lower := p.head_le_size
      rw [Pack.whole]
      exact if_neg (by omega)
  rw [Pack.whole_append _ front back (Nat.le_refl _), Nat.sub_self, nothing, List.append_nil]

/-- Of two beginnings of one packet list the one with fewer bytes is a beginning
of the other. -/
theorem prefix_of_length (front back front' back' : List Pack) (same : front' ++ back' = front ++ back)
    (shorter : (Pack.encodeAll front').length ≤ (Pack.encodeAll front).length) :
    ∃ more, front = front' ++ more ∧ back' = more ++ back := by
  rcases List.append_eq_append_iff.mp same with ⟨more, longer, behind⟩ | ⟨more, longer, behind⟩
  · exact ⟨more, longer, behind⟩
  · cases more with
    | nil => exact ⟨[], by simpa using longer.symm, by simpa using behind.symm⟩
    | cons p more =>
      have lower := p.head_le_size
      rw [longer, Pack.encodeAll_append, Pack.encodeAll_cons, List.length_append, List.length_append,
        Pack.serialize_length] at shorter
      omega

/-- Where blocks fit, a block end with whole packets of the window still behind it holds at
most a length word. -/
theorem held_few {taken front back : List Pack} {phase : Nat} {held : List UInt8}
    (fit : BlocksFit phase ((Pack.encodeAll taken).length + (Pack.encodeAll front).length) (taken ++ (front ++ back)))
    (reached : phase + blockSize = (Pack.encodeAll taken).length + held.length)
    (torn : ∀ p later, front ++ back = p :: later → held.length < p.size)
    (inside : phase + blockSize ≤ (Pack.encodeAll taken).length + (Pack.encodeAll front).length) :
    held.length ≤ 4 := by
  by_contra far
  cases front with
  | nil =>
    simp only [Pack.encodeAll_nil, List.length_nil] at inside
    omega
  | cons p front =>
    have divided := torn p (front ++ back) rfl
    have cut := (blocksFit_divided taken (front ++ back) p phase _ (by omega) (by omega) inside).mp fit
    rw [Pack.encodeAll_cons, List.length_append, Pack.serialize_length] at cut
    omega

/-- A block read leaves the same window: where it ends, and whether the file ends
before it. -/
theorem window_step (limit block n : Nat) (full : block ≤ n) :
    (n - block < limit ↔ n < limit + block) ∧ block + min limit (n - block) = min (limit + block) n := by
  omega

/-- The read loop on a file that ends in its next block, on a boundary: it takes the packets
that are left. -/
theorem sendLoop_ended (before held rest : List UInt8) (front back : List Pack) (readed : Nat)
    (resumes : Resumes held rest (front ++ back)) (last : rest.length < blockSize)
    (ends : (Pack.encodeAll front).length = held.length + rest.length)
    (room : before.length + (Pack.encodeAll front).length < 2 ^ 32) :
    ∃ buffer, sendLoop rest readed (Bytes.filled (before ++ held) before.length) =
        some ⟨true, readed + rest.length, buffer, front.map Pack.call⟩ ∧
      buffer.buf.length = before.length + (Pack.encodeAll front).length := by
  have startLength : (before ++ held).length = before.length + held.length := List.length_append
  have all : rest.take blockSize = rest := List.take_of_length_le (Nat.le_of_lt last)
  have block := resumes.block before rest.length (Nat.le_refl _) (by omega)
  rw [List.take_length, ← ends, whole_boundary] at block
  have written := Bytes.putBytes_filled (before ++ held) rest before.length (by omega)
  refine ⟨Bytes.filled (before ++ held ++ rest)
    (stopAt (before ++ held ++ rest) (before.length + (Pack.encodeAll front).length)), ?_, ?_⟩
  · rw [sendLoop, all, written]
    simp only [Option.bind_eq_bind, Option.bind_some, last, decide_true, true_or, ↓reduceIte, block]
  · simp only [Bytes.filled, List.length_append]
    omega

/-- The read loop that reaches its limit with a whole block, on a boundary: it takes the packets
of the block. -/
theorem sendLoop_limited (before held rest : List UInt8) (front back : List Pack) (readed : Nat)
    (resumes : Resumes held rest (front ++ back)) (full : blockSize ≤ rest.length)
    (reached : transferLen ≤ readed + blockSize)
    (ends : (Pack.encodeAll front).length = held.length + blockSize)
    (room : before.length + (Pack.encodeAll front).length < 2 ^ 32) :
    ∃ buffer, sendLoop rest readed (Bytes.filled (before ++ held) before.length) =
        some ⟨false, readed + blockSize, buffer, front.map Pack.call⟩ ∧
      buffer.buf.length = before.length + (Pack.encodeAll front).length := by
  have startLength : (before ++ held).length = before.length + held.length := List.length_append
  have chunk : (rest.take blockSize).length = blockSize := List.length_take_of_le full
  have block := resumes.block before blockSize full (by omega)
  rw [← ends, whole_boundary] at block
  have written := Bytes.putBytes_filled (before ++ held) (rest.take blockSize) before.length
    (by rw [startLength, chunk]; omega)
  refine ⟨Bytes.filled (before ++ held ++ rest.take blockSize)
    (stopAt (before ++ held ++ rest.take blockSize) (before.length + (Pack.encodeAll front).length)), ?_, ?_⟩
  · rw [sendLoop, written]
    simp only [Option.bind_eq_bind, Option.bind_some, chunk, Nat.not_lt.mpr full, reached, decide_false, or_true,
      ↓reduceIte, block]
  · simp only [Bytes.filled, List.length_append, chunk]
    omega

/-- The read loop on a window that ends on a boundary and whose blocks divide no
packet, with `window` bytes of the limit left: it takes exactly the packets of the
window. The induction is on the unread file; after each block but the last the
loop stands on a boundary. -/
theorem sendLoop_spec (before held rest : List UInt8) (front back : List Pack) (readed window : Nat)
    (resumes : Resumes held rest (front ++ back))
    (sum : readed + window = transferLen) (blocks : blockSize ∣ window) (more : 0 < window)
    (ends : (Pack.encodeAll front).length = held.length + min window rest.length)
    (fit : BlocksFit held.length (Pack.encodeAll front).length (front ++ back))
    (room : before.length + (Pack.encodeAll front).length < 2 ^ 32) :
    ∃ buffer, sendLoop rest readed (Bytes.filled (before ++ held) before.length) =
        some ⟨decide (rest.length < window), readed + min window rest.length, buffer, front.map Pack.call⟩ ∧
      buffer.buf.length = before.length + (Pack.encodeAll front).length := by
  have least : blockSize ≤ window := Nat.le_of_dvd more blocks
  by_cases last : rest.length < blockSize
  · -- The file ends in this block.
    have within : rest.length < window := Nat.lt_of_lt_of_le last least
    have count : min window rest.length = rest.length := Nat.min_eq_right (Nat.le_of_lt within)
    rw [count] at ends ⊢
    rw [decide_eq_true within]
    exact sendLoop_ended before held rest front back readed resumes last ends room
  · have full : blockSize ≤ rest.length := Nat.not_lt.mp last
    have inside : held.length + blockSize ≤ (Pack.encodeAll front).length := by
      rw [ends]
      exact Nat.add_le_add_left (Nat.le_min.mpr ⟨least, full⟩) _
    obtain ⟨window', rfl⟩ : ∃ window', window = window' + blockSize := ⟨window - blockSize, by omega⟩
    cases Nat.eq_zero_or_pos window' with
    | inl limit =>
      -- The limit is reached with this block.
      subst limit
      rw [Nat.zero_add] at sum ends ⊢
      rw [Nat.min_eq_left full] at ends ⊢
      rw [decide_eq_false last]
      exact sendLoop_limited before held rest front back readed resumes full (Nat.le_of_eq sum.symm) ends room
    | inr positive =>
      have startLength : (before ++ held).length = before.length + held.length := List.length_append
      have chunk : (rest.take blockSize).length = blockSize := List.length_take_of_le full
      have written := Bytes.putBytes_filled (before ++ held) (rest.take blockSize) before.length
        (by rw [startLength, chunk]; omega)
      have limit : ¬ transferLen ≤ readed + blockSize := by omega
      obtain ⟨taken, ps, held', split, reached, torn, resumes', pass⟩ := resumes.pass before full
        (Nat.lt_of_le_of_lt (Nat.add_le_add_left inside _) room)
      obtain ⟨front', rfl, rfl⟩ := prefix_of_length front back taken ps split.symm (by omega)
      rw [Pack.encodeAll_append, List.length_append] at ends fit room inside ⊢
      rw [split] at fit
      have near := held_few fit reached torn inside
      have left : (rest.drop blockSize).length = rest.length - blockSize := List.length_drop
      have wholeBytes : (before ++ Pack.encodeAll taken).length =
          before.length + (Pack.encodeAll taken).length := List.length_append
      have fit' := (blocksFit_step taken (front' ++ back) held.length _ (by omega) (by omega) inside).mp fit
      rw [reached, Nat.add_sub_cancel_left, Nat.add_sub_cancel_left] at fit'
      obtain ⟨ended, count⟩ := window_step window' blockSize rest.length full
      rw [← left] at ended count
      have ends' : (Pack.encodeAll front').length = held'.length + min window' (rest.drop blockSize).length := by
        rw [← count] at ends
        omega
      obtain ⟨buffer, sent, length⟩ := sendLoop_spec (before ++ Pack.encodeAll taken) held'
        (rest.drop blockSize) front' back (readed + blockSize) window' resumes' (by omega)
        ((Nat.dvd_add_left (Nat.dvd_refl _)).mp blocks) positive ends' fit' (by omega)
      refine ⟨buffer, ?_, by omega⟩
      rw [sendLoop, written]
      simp only [Option.bind_eq_bind, Option.bind_some, chunk, last, limit, or_self, ↓reduceIte, pass,
        Nat.not_lt.mpr near, Nat.add_zero]
      rw [sent]
      simp only [Option.bind_some, ended, Nat.add_assoc, count, List.map_append]
termination_by rest.length
decreasing_by
  rw [List.length_drop]
  have positive : 0 < blockSize := by decide
  omega

/-- The directory that holds the files from number `base` on. -/
def aofDir : Nat → List (List Pack) → Dir
  | _, [], _ => none
  | base, file :: files, name =>
    if genAofFilename base = name then some (Pack.encodeAll file) else aofDir (base + 1) files name

/-- Each file is found under its own name. By induction on the files: names with other numbers
differ. -/
theorem aofDir_gen (base : Nat) (files : List (List Pack)) (n : Nat) :
    aofDir base files (genAofFilename (base + n)) = files[n]?.map Pack.encodeAll := by
  induction files generalizing base n with
  | nil => simp [aofDir]
  | cons file files ih =>
    cases n with
    | zero => simp [aofDir]
    | succ n =>
      have other : ¬ genAofFilename base = genAofFilename (base + (n + 1)) := by
        intro same
        have := genAofFilename_injective _ _ same
        omega
      have later : base + (n + 1) = base + 1 + n := by omega
      rw [aofDir, if_neg other, later, ih (base + 1) n, List.getElem?_cons_succ]

/-- The cursor stands at a place of the history: the file of that number, and as
many bytes as the packets before the place have. -/
structure OnBoundary (base : Nat) (files : List (List Pack)) (place : Place) (link : ReplicaLink) : Prop where
  valid : place.Valid files
  name : link.replAofFileName = genAofFilename (base + place.segment)
  off : ∀ file, files[place.segment]? = some file →
    link.replAofOff = (Pack.encodeAll (file.take place.offset)).length

/-- The window of a tick at a place: at most 16 KiB of what its file holds behind
it. It fits when it ends on a packet boundary and no block end lies more than
four bytes inside a packet. -/
def WindowFits (files : List (List Pack)) (place : Place) : Prop :=
  ∀ file, files[place.segment]? = some file →
    ∃ front back, file.drop place.offset = front ++ back ∧
      (Pack.encodeAll front).length = min transferLen (Pack.encodeAll (front ++ back)).length ∧
      BlocksFit 0 (Pack.encodeAll front).length (front ++ back)

/-- Files shorter than a block have only windows that fit. -/
theorem WindowFits.of_short {files : List (List Pack)} (short : ∀ file ∈ files, (Pack.encodeAll file).length < blockSize)
    (place : Place) : WindowFits files place := by
  intro file found
  have whole := short file (List.mem_of_getElem? found)
  have rest : (Pack.encodeAll (file.drop place.offset)).length ≤ (Pack.encodeAll file).length := by
    conv_rhs => rw [← List.take_append_drop place.offset file, Pack.encodeAll_append, List.length_append]
    exact Nat.le_add_left _ _
  have limit : blockSize ≤ transferLen := by decide
  refine ⟨file.drop place.offset, [], (List.append_nil _).symm, ?_, BlocksFit.of_short _ _ _ (by omega)⟩
  rw [List.append_nil]
  exact (Nat.min_eq_right (by omega)).symm

/-- The message for packets, with the cursor it carries. -/
def messageFor (link : ReplicaLink) (packs : List Pack) : CommandAof where
  aofName := link.replAofFileName
  aofOff := link.replAofOff
  types := packs.map Pack.type
  commands := packs.map fun pack => cString pack.body

/-- The packets between two indices of the history. -/
def slice (files : List (List Pack)) (start stop : Nat) : List Pack :=
  (files.flatten.drop start).take (stop - start)

/-- The packets in front of the rest of a valid place's file come next in the history. -/
theorem slice_front {files : List (List Pack)} {place : Place} {file front back : List Pack}
    (valid : place.Valid files) (found : files[place.segment]? = some file)
    (rest : file.drop place.offset = front ++ back) :
    slice files (place.index files) (place.index files + front.length) = front := by
  obtain ⟨before, file', after, rfl, length, inside⟩ := valid.split
  obtain rfl : file' = file := by simpa [← length] using found
  rw [slice, ← Place.behind_eq_drop valid, Place.behind, Nat.add_sub_cancel_left, ← length, List.drop_left,
    List.flatten_cons, List.drop_append_of_le_length inside, rest, List.append_assoc, List.take_left]

/-- Behind the end of a file the cursor goes to the next file when it is there;
either place has the whole file before it. -/
theorem next_place {base : Nat} {files : List (List Pack)} {n : Nat} {file : List Pack}
    {link : ReplicaLink} (readed : Nat) (found : files[n]? = some file) (numbered : base + files.length < 2 ^ 31)
    (name : link.replAofFileName = genAofFilename (base + n))
    (whole : link.replAofOff + readed = (Pack.encodeAll file).length) :
    ∃ next, hasNextAof (aofDir base files) link.replAofFileName = some next ∧
      ∃ place, place.index files = Place.index files ⟨n, file.length⟩ ∧
        OnBoundary base files place (moveCursor link next readed) := by
  have bound : n < files.length := (List.getElem?_eq_some_iff.mp found).1
  have there := aofDir_gen base files (n + 1)
  rw [← Nat.add_assoc] at there
  rw [name, hasNextAof_gen _ _ (by omega), there]
  cases next : files[n + 1]? with
  | none =>
    refine ⟨_, rfl, ⟨n, file.length⟩, rfl, ⟨file, found, Nat.le_refl _⟩, name, fun other same => ?_⟩
    obtain rfl : file = other := Option.some.inj (found.symm.trans same)
    rw [List.take_length]
    exact whole
  | some following =>
    refine ⟨_, rfl, ⟨n + 1, 0⟩, Place.index_next found, ⟨following, next, Nat.zero_le _⟩, rfl, fun _ _ => ?_⟩
    rw [List.take_zero]
    rfl

/-- A tick on an empty file. -/
theorem tick_empty {dir : Dir} {link : ReplicaLink} {next : Option String}
    (named : link.replAofFileName ≠ "") (contents : dir link.replAofFileName = some [])
    (hasNext : hasNextAof dir link.replAofFileName = some next) :
    onSendIncrToSlave dir link = some (moveCursor link next 0, none) := by
  rw [onSendIncrToSlave, if_neg named, contents]
  simp only [↓reduceIte, hasNext, Option.bind_eq_bind, Option.bind_some]
  cases next <;> rfl

/-- A tick on a file with nothing behind the cursor. -/
theorem tick_end {dir : Dir} {link : ReplicaLink} {next : Option String} {contents : List UInt8}
    (named : link.replAofFileName ≠ "") (found : dir link.replAofFileName = some contents)
    (nonempty : contents ≠ []) (behind : contents.drop link.replAofOff = [])
    (hasNext : hasNextAof dir link.replAofFileName = some next) :
    onSendIncrToSlave dir link = some (moveCursor link next 0, none) := by
  have cleared : Bytes.cleared.size = 0 := rfl
  have read : readWindow (contents.drop link.replAofOff) = some ⟨true, 0, Bytes.cleared, []⟩ := if_pos behind
  rw [onSendIncrToSlave, if_neg named, found]
  simp only [nonempty, ↓reduceIte, read, Option.bind_eq_bind, Option.bind_some, finishSending, nextFile, hasNext,
    cleared]

/-- A tick that reads a window with bytes in it. It sends one message, with the cursor that it
has moved to. -/
theorem tick_window {dir : Dir} {link : ReplicaLink} {next : Option String} {contents : List UInt8}
    {sending : Sending} (named : link.replAofFileName ≠ "")
    (found : dir link.replAofFileName = some contents) (behind : contents.drop link.replAofOff ≠ [])
    (sent : sendLoop (contents.drop link.replAofOff) 0 Bytes.cleared = some sending)
    (hasNext : nextFile dir link sending = some next)
    (filled : sending.buffer.size ≠ 0) (packs : List Pack) (calls : sending.calls = packs.map Pack.call) :
    onSendIncrToSlave dir link =
      some (moveCursor link next sending.readed, some (messageFor (moveCursor link next sending.readed) packs)) := by
  have nonempty : contents ≠ [] := by
    rintro rfl
    exact behind List.drop_nil
  have types : (packs.map Pack.call).map Call.type = packs.map Pack.type := List.map_map
  have commands : ((packs.map Pack.call).map fun call => cString call.msg) =
      packs.map fun pack => cString pack.body := List.map_map
  have read : readWindow (contents.drop link.replAofOff) = some sending := (if_neg behind).trans sent
  rw [onSendIncrToSlave, if_neg named, found]
  simp only [nonempty, ↓reduceIte, read, Option.bind_eq_bind, Option.bind_some, finishSending, hasNext, filled,
    calls, types, commands, messageFor]

/-- A stream of packets is empty only without packets. -/
theorem encodeAll_eq_nil {packs : List Pack} (empty : Pack.encodeAll packs = []) : packs = [] := by
  cases packs with
  | nil => rfl
  | cons p packs =>
    have lower := p.head_le_size
    have length := congrArg List.length empty
    rw [Pack.encodeAll_cons, List.length_append, Pack.serialize_length, List.length_nil] at length
    omega

/-- The read loop on a fitting window at the beginning of its packets. An instance of
`sendLoop_spec` with an empty buffer. -/
theorem sendLoop_window (front back : List Pack)
    (ends : (Pack.encodeAll front).length = min transferLen (Pack.encodeAll (front ++ back)).length)
    (fit : BlocksFit 0 (Pack.encodeAll front).length (front ++ back)) :
    ∃ buffer, sendLoop (Pack.encodeAll (front ++ back)) 0 Bytes.cleared =
        some ⟨decide ((Pack.encodeAll (front ++ back)).length < transferLen), (Pack.encodeAll front).length,
          buffer, front.map Pack.call⟩ ∧
      buffer.buf.length = (Pack.encodeAll front).length := by
  have resumes : Resumes [] (Pack.encodeAll (front ++ back)) (front ++ back) := by
    have start := resumes_cut (front ++ back) (Pack.encodeAll (front ++ back)).length
    rw [List.take_length] at start
    exact start
  have limit : min transferLen (Pack.encodeAll (front ++ back)).length ≤ transferLen := Nat.min_le_left _ _
  have below : transferLen < 2 ^ 32 := by decide
  have spec := sendLoop_spec [] [] _ front back 0 transferLen resumes (Nat.zero_add _) (by decide) (by decide)
    (by rw [ends, List.length_nil, Nat.zero_add]) fit (by rw [List.length_nil]; omega)
  simp only [List.append_nil, List.length_nil, Nat.zero_add, ← ends] at spec
  exact spec

/-- What the file of a cursor on a boundary holds behind it. -/
theorem OnBoundary.unread {base : Nat} {files : List (List Pack)} {place : Place} {link : ReplicaLink}
    {file : List Pack} (boundary : OnBoundary base files place link) (found : files[place.segment]? = some file) :
    (Pack.encodeAll file).drop link.replAofOff = Pack.encodeAll (file.drop place.offset) ∧
      link.replAofOff + (Pack.encodeAll (file.drop place.offset)).length = (Pack.encodeAll file).length := by
  have split : Pack.encodeAll file =
      Pack.encodeAll (file.take place.offset) ++ Pack.encodeAll (file.drop place.offset) := by
    rw [← Pack.encodeAll_append, List.take_append_drop]
  rw [boundary.off file found]
  constructor
  · rw [split, List.drop_left]
  · rw [split, List.length_append]

/-- A cursor that has read the rest of its file has the packets of that rest before it,
in this file or at the beginning of the next. -/
theorem OnBoundary.through {base : Nat} {files : List (List Pack)} {place : Place} {link : ReplicaLink}
    {file : List Pack} (boundary : OnBoundary base files place link) (found : files[place.segment]? = some file)
    (numbered : base + files.length < 2 ^ 31) :
    ∃ next, hasNextAof (aofDir base files) link.replAofFileName = some next ∧
      ∃ place', OnBoundary base files place'
          (moveCursor link next (Pack.encodeAll (file.drop place.offset)).length) ∧
        place'.index files = place.index files + (file.drop place.offset).length := by
  obtain ⟨file', found', inside⟩ := boundary.valid
  obtain rfl : file' = file := Option.some.inj (found'.symm.trans found)
  obtain ⟨next, hasNext, place', index, reached⟩ :=
    next_place _ found numbered boundary.name (boundary.unread found).2
  refine ⟨next, hasNext, place', reached, ?_⟩
  rw [index, Place.index, Place.index, List.length_drop, Nat.add_assoc, Nat.add_sub_cancel' inside]

/-- A cursor that has read some packets behind it in its file stands on the boundary
behind these. -/
theorem OnBoundary.advance {base : Nat} {files : List (List Pack)} {place : Place} {link : ReplicaLink}
    {file front back : List Pack} (boundary : OnBoundary base files place link)
    (found : files[place.segment]? = some file) (rest : file.drop place.offset = front ++ back) :
    OnBoundary base files ⟨place.segment, place.offset + front.length⟩
      (moveCursor link none (Pack.encodeAll front).length) := by
  obtain ⟨file', found', inside⟩ := boundary.valid
  obtain rfl : file' = file := Option.some.inj (found'.symm.trans found)
  refine ⟨⟨file', found, ?_⟩, boundary.name, ?_⟩
  · change place.offset + front.length ≤ file'.length
    have count := congrArg List.length rest
    rw [List.length_drop, List.length_append] at count
    omega
  · intro other same
    obtain rfl : file' = other := Option.some.inj (found.symm.trans same)
    have taken : file'.take (place.offset + front.length) = file'.take place.offset ++ front := by
      rw [List.take_add, rest, List.take_left]
    rw [taken, Pack.encodeAll_append, List.length_append, ← boundary.off file' found]
    rfl

/-- A tick with nothing behind the cursor in its file, which may be empty. The cursor goes on to
the next file if there is one, to a place with the same packets before it. -/
theorem tick_nothing {base : Nat} {files : List (List Pack)} {place : Place} {link : ReplicaLink} {file : List Pack}
    (boundary : OnBoundary base files place link) (found : files[place.segment]? = some file)
    (numbered : base + files.length < 2 ^ 31) (nothing : file.drop place.offset = [])
    (named : link.replAofFileName ≠ "")
    (found' : aofDir base files link.replAofFileName = some (Pack.encodeAll file)) :
    ∃ link' place', onSendIncrToSlave (aofDir base files) link = some (link', none) ∧
      OnBoundary base files place' link' ∧ place'.index files = place.index files := by
  obtain ⟨next, hasNext, place', reached, index⟩ := boundary.through found numbered
  have behind := (boundary.unread found).1
  rw [nothing] at reached index behind
  refine ⟨_, place', ?_, reached, index⟩
  by_cases empty : Pack.encodeAll file = []
  · exact tick_empty named (empty ▸ found') hasNext
  · exact tick_end named found' empty behind hasNext

/-- A window of packets has bytes in it. -/
theorem window_positive {front back : List Pack} (nonempty : front ++ back ≠ [])
    (ends : (Pack.encodeAll front).length = min transferLen (Pack.encodeAll (front ++ back)).length) :
    0 < (Pack.encodeAll front).length := by
  rw [ends]
  refine Nat.lt_min.mpr ⟨by decide, ?_⟩
  exact List.length_pos_iff.mpr fun empty => nonempty (encodeAll_eq_nil empty)

/-- The buffer with the packets of a window is not empty. -/
theorem window_filled {front back : List Pack} {buffer : Bytes}
    (ends : (Pack.encodeAll front).length = min transferLen (Pack.encodeAll (front ++ back)).length)
    (length : buffer.buf.length = (Pack.encodeAll front).length) (positive : 0 < (Pack.encodeAll front).length) :
    buffer.size ≠ 0 := by
  intro zero
  have below : transferLen < 2 ^ 32 := by decide
  have limit : min transferLen (Pack.encodeAll (front ++ back)).length ≤ transferLen := Nat.min_le_left _ _
  have size : buffer.size.toNat = buffer.buf.length := word_toNat _ (by omega)
  rw [zero, length] at size
  exact absurd size (Nat.ne_of_lt positive)

/-- A window that the end of the file has ended takes all packets. -/
theorem window_exhausted {front back : List Pack}
    (ends : (Pack.encodeAll front).length = min transferLen (Pack.encodeAll (front ++ back)).length)
    (eof : (Pack.encodeAll (front ++ back)).length < transferLen) : back = [] := by
  have all : (Pack.encodeAll front).length = (Pack.encodeAll (front ++ back)).length := by
    rw [ends]
    exact Nat.min_eq_right (Nat.le_of_lt eof)
  refine encodeAll_eq_nil (List.length_eq_zero_iff.mp ?_)
  rw [Pack.encodeAll_append, List.length_append] at all
  omega

/-- One tick whose window fits: the cursor moves to the boundary behind the packets of the
window, and these are the message, if there are any. The cases are an empty rest of a file,
which moves the cursor to the next file if there is one, and a window with packets, which the
read loop takes to its end or to its limit. -/
theorem tick_spec {base : Nat} {files : List (List Pack)} {place : Place} {link : ReplicaLink}
    (boundary : OnBoundary base files place link) (numbered : base + files.length < 2 ^ 31)
    (fits : WindowFits files place) :
    ∃ link' place' packs, onSendIncrToSlave (aofDir base files) link =
        some (link', if packs = [] then none else some (messageFor link' packs)) ∧
      OnBoundary base files place' link' ∧ place'.index files = place.index files + packs.length ∧
      packs = slice files (place.index files) (place'.index files) := by
  obtain ⟨file, found, inside⟩ := boundary.valid
  obtain ⟨front, back, rest, ends, fit⟩ := fits file found
  have found' := aofDir_gen base files place.segment
  rw [found, Option.map_some, ← boundary.name] at found'
  have named : link.replAofFileName ≠ "" := by
    rw [boundary.name]
    exact genAofFilename_ne_empty _
  by_cases nothing : file.drop place.offset = []
  · obtain ⟨link', place', sent, reached, index⟩ := tick_nothing boundary found numbered nothing named found'
    refine ⟨link', place', [], sent, reached, index, ?_⟩
    rw [index, slice, Nat.sub_self, List.take_zero]
  · have positive : 0 < (Pack.encodeAll front).length := window_positive (rest ▸ nothing) ends
    have nonempty : front ≠ [] := by
      rintro rfl
      exact absurd positive (Nat.lt_irrefl 0)
    have behind := (boundary.unread found).1
    have behind' : (Pack.encodeAll file).drop link.replAofOff ≠ [] := by
      rw [behind]
      exact fun empty => nothing (encodeAll_eq_nil empty)
    obtain ⟨buffer, sent, length⟩ := sendLoop_window front back ends fit
    rw [← rest, ← behind] at sent
    have filled := window_filled ends length positive
    have sliced := slice_front ⟨file, found, inside⟩ found rest
    by_cases eof : ((Pack.encodeAll file).drop link.replAofOff).length < transferLen
    · -- The window is the rest of the file.
      have exhausted : back = [] := by
        apply window_exhausted ends
        rwa [← rest, ← behind]
      rw [exhausted, List.append_nil] at rest
      obtain ⟨next, hasNext, place', reached, index⟩ := boundary.through found numbered
      rw [rest] at reached index
      refine ⟨_, place', front, ?_, reached, index, ?_⟩
      · rw [if_neg nonempty]
        exact tick_window named found' behind' sent ((if_pos (decide_eq_true eof)).trans hasNext) filled front rfl
      · rw [index, sliced]
    · -- The limit is reached inside the file.
      have index : Place.index files ⟨place.segment, place.offset + front.length⟩ =
          place.index files + front.length := by rw [Place.index, Place.index, Nat.add_assoc]
      refine ⟨_, _, front, ?_, boundary.advance found rest, index, ?_⟩
      · rw [if_neg nonempty]
        have stays : ¬ decide (((Pack.encodeAll file).drop link.replAofOff).length < transferLen) = true := by
          rw [decide_eq_true_iff]
          exact eof
        exact tick_window named found' behind' sent (if_neg stays) filled front rfl
      · rw [index, sliced]

/-- A boundary stays a boundary while the history grows. -/
theorem OnBoundary.grows {base : Nat} {files files' : List (List Pack)} {more : List Pack} {place : Place}
    {link : ReplicaLink} (boundary : OnBoundary base files place link) (grows : Grows files more files') :
    OnBoundary base files' place link := by
  obtain ⟨⟨file, found, inside⟩, name, off⟩ := boundary
  obtain ⟨⟨added, found'⟩, _⟩ := grows.segment found
  refine ⟨(grows.place ⟨file, found, inside⟩).1, name, fun other same => ?_⟩
  obtain rfl : file ++ added = other := Option.some.inj (found'.symm.trans same)
  rw [List.take_append_of_le_length inside]
  exact off file found

/-- The messages carry, one after another, consecutive pieces of the history
between two indices, each with the boundary behind its last packet. -/
def Follows (base : Nat) (files : List (List Pack)) : Nat → List CommandAof → Nat → Prop
  | start, [], stop => start = stop
  | start, message :: messages, stop => ∃ place,
      OnBoundary base files place ⟨message.aofName, message.aofOff⟩ ∧ start < place.index files ∧
      message = messageFor ⟨message.aofName, message.aofOff⟩ (slice files start (place.index files)) ∧
      Follows base files (place.index files) messages stop

/-- A slice that ends inside the history stays the same while the history grows. -/
theorem slice_grows {files files' : List (List Pack)} {more : List Pack} (grows : Grows files more files')
    (start stop : Nat) (inside : stop ≤ files.flatten.length) :
    slice files' start stop = slice files start stop := by
  rw [slice, slice, grows.flatten]
  by_cases order : start ≤ stop
  · rw [List.drop_append_of_le_length (Nat.le_trans order inside),
      List.take_append_of_le_length (by rw [List.length_drop]; omega)]
  · have nothing : stop - start = 0 := by omega
    rw [nothing, List.take_zero, List.take_zero]

/-- What has been delivered stays delivered while the history grows. -/
theorem Follows.grows {base : Nat} {files files' : List (List Pack)} {more : List Pack}
    (grows : Grows files more files') {messages : List CommandAof} {start stop : Nat}
    (follows : Follows base files start messages stop) : Follows base files' start messages stop := by
  induction messages generalizing start with
  | nil => exact follows
  | cons message messages ih =>
    obtain ⟨place, boundary, later, content, rest⟩ := follows
    have index := (grows.place boundary.valid).2
    refine ⟨place, boundary.grows grows, by rw [index]; exact later, ?_, by rw [index]; exact ih rest⟩
    rw [index, slice_grows grows _ _ boundary.valid.index_le]
    exact content

/-- One more message, for the packets from where the earlier ones stop. -/
theorem Follows.snoc {base : Nat} {files : List (List Pack)} {messages : List CommandAof} {start stop : Nat}
    {place : Place} (follows : Follows base files start messages stop) (message : CommandAof)
    (boundary : OnBoundary base files place ⟨message.aofName, message.aofOff⟩)
    (later : stop < place.index files)
    (content : message = messageFor ⟨message.aofName, message.aofOff⟩ (slice files stop (place.index files))) :
    Follows base files start (messages ++ [message]) (place.index files) := by
  induction messages generalizing start with
  | nil =>
    obtain rfl : start = stop := follows
    exact ⟨place, boundary, later, content, rfl⟩
  | cons first messages ih =>
    obtain ⟨place', boundary', later', content', rest⟩ := follows
    exact ⟨place', boundary', later', content', ih rest⟩

/-- Consecutive slices join. -/
theorem slice_append (files : List (List Pack)) (start middle stop : Nat) (first : start ≤ middle)
    (second : middle ≤ stop) : slice files start middle ++ slice files middle stop = slice files start stop := by
  have gap : files.flatten.drop middle = (files.flatten.drop start).drop (middle - start) := by
    rw [List.drop_drop, Nat.add_sub_of_le first]
  have length : stop - start = (middle - start) + (stop - middle) := by omega
  rw [slice, slice, slice, gap, length, List.take_add]

/-- All messages together carry every packet between the indices once and in order. By induction
on the messages, each of which begins where the one before has ended. -/
theorem Follows.joined {base : Nat} {files : List (List Pack)} {messages : List CommandAof} {start stop : Nat}
    (follows : Follows base files start messages stop) :
    start ≤ stop ∧ messages.flatMap CommandAof.types = (slice files start stop).map Pack.type ∧
      messages.flatMap CommandAof.commands = (slice files start stop).map fun pack => cString pack.body := by
  induction messages generalizing start with
  | nil =>
    obtain rfl : start = stop := follows
    refine ⟨Nat.le_refl _, ?_, ?_⟩
    all_goals rw [slice, Nat.sub_self, List.take_zero]; rfl
  | cons message messages ih =>
    obtain ⟨place, _, later, content, rest⟩ := follows
    obtain ⟨order, types, commands⟩ := ih rest
    have first := Nat.le_of_lt later
    refine ⟨Nat.le_trans first order, ?_, ?_⟩
    · rw [List.flatMap_cons, types, ← slice_append files _ _ _ first order, List.map_append, content]
      rfl
    · rw [List.flatMap_cons, commands, ← slice_append files _ _ _ first order, List.map_append, content]
      rfl

/-- The master's AOF files, one slave's link, and the messages queued for the slave. -/
structure Feeding where
  files : List (List Pack)
  link : ReplicaLink
  sent : List CommandAof

/-- What happens to them: whole packets written to the last file, a rotation, a
tick of the sender. -/
inductive FeedingEvent
  | write (packs : List Pack)
  | rotate
  | tick

/-- One event. -/
def feedingStep (base : Nat) (s : Feeding) : FeedingEvent → Option Feeding
  | .write packs => s.files.getLast?.map fun file =>
      { s with files := s.files.dropLast ++ [file ++ packs] }
  | .rotate => some { s with files := s.files ++ [[]] }
  | .tick => (onSendIncrToSlave (aofDir base s.files) s.link).map fun result =>
      { s with link := result.1, sent := s.sent ++ result.2.toList }

/-- The condition on the events: a tick reads a window that fits, and file numbers
stay within `int`. -/
def FeedingFits (base : Nat) (s : Feeding) : FeedingEvent → Prop
  | .write _ => True
  | .rotate => base + s.files.length + 1 < 2 ^ 31
  | .tick => ∀ place, OnBoundary base s.files place s.link → WindowFits s.files place

/-- The cursor stands behind what has been sent since the index `start`. -/
structure Delivered (base start : Nat) (s : Feeding) : Prop where
  numbered : base + s.files.length < 2 ^ 31
  sent : ∃ place, OnBoundary base s.files place s.link ∧ Follows base s.files start s.sent (place.index s.files)

/-- The history grows under a delivered state. -/
theorem Delivered.grows {base start : Nat} {s : Feeding} {files' : List (List Pack)} {more : List Pack}
    (delivered : Delivered base start s) (grows : Grows s.files more files')
    (numbered : base + files'.length < 2 ^ 31) : Delivered base start { s with files := files' } := by
  obtain ⟨place, boundary, follows⟩ := delivered.sent
  refine ⟨numbered, place, boundary.grows grows, ?_⟩
  rw [(grows.place boundary.valid).2]
  exact follows.grows grows

/-- Every event that meets the condition is defined and keeps the state delivered. A write
or a rotation grows the history behind the cursor; a tick puts one more message behind those
sent. -/
theorem feedingStep_delivered (base start : Nat) (s : Feeding) (event : FeedingEvent)
    (delivered : Delivered base start s) (fits : FeedingFits base s event) :
    ∃ s', feedingStep base s event = some s' ∧ Delivered base start s' := by
  obtain ⟨place, boundary, follows⟩ := delivered.sent
  cases event with
  | write packs =>
    obtain ⟨file, found, _⟩ := boundary.valid
    have opened : s.files ≠ [] := by
      intro empty
      rw [empty] at found
      exact absurd found (by simp)
    obtain ⟨before, final, split⟩ := (List.eq_nil_or_concat' s.files).resolve_left opened
    refine ⟨{ s with files := before ++ [final ++ packs] }, ?_, ?_⟩
    · simp only [feedingStep, split, List.getLast?_concat, Option.map_some, List.dropLast_concat]
    · refine delivered.grows (by rw [split]; exact Grows.extend before final packs) ?_
      have numbered := delivered.numbered
      rw [split] at numbered
      simpa only [List.length_append, List.length_singleton] using numbered
  | rotate =>
    refine ⟨_, rfl, delivered.grows (Grows.rotate s.files []) ?_⟩
    rw [List.length_append, List.length_singleton]
    exact fits
  | tick =>
    obtain ⟨link', place', packs, ticked, boundary', index, content⟩ :=
      tick_spec boundary delivered.numbered (fits place boundary)
    let message := if packs = [] then none else some (messageFor link' packs)
    refine ⟨{ s with link := link', sent := s.sent ++ message.toList }, by rw [feedingStep, ticked]; rfl,
      delivered.numbered, place', boundary', ?_⟩
    cases packs with
    | nil =>
      have same : place'.index s.files = place.index s.files := index
      have nothing : s.sent ++ message.toList = s.sent := List.append_nil _
      rw [same, nothing]
      exact follows
    | cons p ps =>
      refine follows.snoc (messageFor link' (p :: ps)) boundary' ?_ ?_
      · rw [index, List.length_cons]
        omega
      · rw [← content]
        rfl

/-- Over any run of writes, rotations and ticks whose windows fit, the sender never fails: the
cursor is on a boundary after every event, every message carries the boundary behind its last
packet, and all messages together carry the packets behind the starting cursor up to the
present one, each once and in order.

Proof: a tick whose window fits moves the cursor to the boundary behind the packets it sends,
or to the beginning of the next file; writes and rotations only grow the files behind it. So
the invariant is that the messages follow one another from the starting index to the cursor's,
and the events that fit are defined and keep it. -/
theorem incremental_delivered (base : Nat) (files : List (List Pack)) (place : Place) (link : ReplicaLink)
    (events : List FeedingEvent) (boundary : OnBoundary base files place link)
    (numbered : base + files.length < 2 ^ 31)
    (fits : Along (feedingStep base) (FeedingFits base) ⟨files, link, []⟩ events) :
    ∃ s place', run (feedingStep base) ⟨files, link, []⟩ events = some s ∧
      OnBoundary base s.files place' s.link ∧
      Follows base s.files (place.index files) s.sent (place'.index s.files) ∧
      s.sent.flatMap CommandAof.types =
        (slice s.files (place.index files) (place'.index s.files)).map Pack.type ∧
      s.sent.flatMap CommandAof.commands =
        (slice s.files (place.index files) (place'.index s.files)).map fun pack => cString pack.body := by
  have start : Delivered base (place.index files) ⟨files, link, []⟩ := ⟨numbered, place, boundary, rfl⟩
  obtain ⟨s, ran, delivered⟩ :=
    run_progress (Delivered base (place.index files)) (feedingStep_delivered base _) _ events start fits
  obtain ⟨place', boundary', follows⟩ := delivered.sent
  obtain ⟨_, types, commands⟩ := follows.joined
  exact ⟨s, place', ran, boundary', follows, types, commands⟩

/-- Reading up to the limit without meeting the end of the file. By recursion over the blocks of
the window. -/
theorem sendLoop_limit (rest : List UInt8) (readed window : Nat) (buffer : Bytes) (sending : Sending)
    (sum : readed + window = transferLen) (blocks : blockSize ∣ window) (more : 0 < window)
    (long : window ≤ rest.length) (sent : sendLoop rest readed buffer = some sending) :
    sending.readed = transferLen ∧ sending.eof = false := by
  have least : blockSize ≤ window := Nat.le_of_dvd more blocks
  have full : ¬ rest.length < blockSize := by omega
  have chunk : (rest.take blockSize).length = blockSize := List.length_take_of_le (by omega)
  obtain ⟨window', rfl⟩ : ∃ window', window = window' + blockSize := ⟨window - blockSize, by omega⟩
  rw [sendLoop] at sent
  obtain ⟨bytes, _, sent⟩ := Option.bind_eq_some_iff.mp sent
  simp only [chunk, full, false_or, decide_false] at sent
  cases Nat.eq_zero_or_pos window' with
  | inl limit =>
    subst limit
    rw [Nat.zero_add] at sum
    rw [if_pos (Nat.le_of_eq sum.symm)] at sent
    obtain rfl := Option.some.inj sent
    exact ⟨sum, rfl⟩
  | inr positive =>
    rw [if_neg (by omega)] at sent
    obtain ⟨later, sent', joined⟩ := Option.bind_eq_some_iff.mp sent
    obtain rfl := Option.some.inj joined
    exact sendLoop_limit (rest.drop blockSize) (readed + blockSize) window' _ later (by omega)
      ((Nat.dvd_add_left (Nat.dvd_refl _)).mp blocks) positive (by rw [List.length_drop]; omega) sent'
termination_by rest.length
decreasing_by
  have positive : 0 < blockSize := by decide
  rw [List.length_drop]
  omega

/-- A packet longer than the limit leaves the cursor inside it. The loop has read up to the
limit and taken nothing, so the cursor goes on by that much. -/
theorem tick_inside (base : Nat) (p : Pack) (long : transferLen < p.size) (link' : ReplicaLink)
    (message : Option CommandAof)
    (ticked : onSendIncrToSlave (aofDir base [[p]]) ⟨genAofFilename base, 0⟩ = some (link', message))
    (place : Place) : ¬ OnBoundary base [[p]] place link' := by
  have stream : Pack.encodeAll [p] = p.serialize := List.append_nil _
  have found : aofDir base [[p]] (genAofFilename base) = some p.serialize := by
    rw [← stream]
    exact aofDir_gen base [[p]] 0
  have length : p.serialize.length = p.size := p.serialize_length
  have nonempty : p.serialize ≠ [] := by
    intro empty
    rw [empty, List.length_nil] at length
    omega
  have read : readWindow (p.serialize.drop 0) = sendLoop p.serialize 0 Bytes.cleared := if_neg nonempty
  rw [onSendIncrToSlave, if_neg (genAofFilename_ne_empty base)] at ticked
  simp only [found, nonempty, ↓reduceIte, read] at ticked
  obtain ⟨sending, sent, finished⟩ := Option.bind_eq_some_iff.mp ticked
  obtain ⟨readed, eof⟩ := sendLoop_limit p.serialize 0 transferLen _ sending (Nat.zero_add _) (by decide)
    (by decide) (by omega) sent
  have next : nextFile (aofDir base [[p]]) ⟨genAofFilename base, 0⟩ sending = some none := by
    rw [nextFile, eof]
    rfl
  have moved : link' = moveCursor ⟨genAofFilename base, 0⟩ none sending.readed := by
    simp only [finishSending, next, Option.bind_eq_bind, Option.bind_some] at finished
    split at finished
    · exact (Prod.mk.inj (Option.some.inj finished)).1.symm
    · exact (Prod.mk.inj (Option.some.inj finished)).1.symm
  have at' : link'.replAofOff = transferLen := by
    rw [moved, readed]
    exact Nat.zero_add _
  intro boundary
  obtain ⟨file, there, inside⟩ := boundary.valid
  have off := boundary.off file there
  have only : place.segment = 0 := by
    have bound := (List.getElem?_eq_some_iff.mp there).1
    exact Nat.lt_one_iff.mp bound
  rw [only] at there
  obtain rfl : [p] = file := Option.some.inj there
  rw [at'] at off
  have positive : 0 < transferLen := by decide
  cases count : place.offset with
  | zero =>
    rw [count, List.take_zero, Pack.encodeAll_nil, List.length_nil] at off
    omega
  | succ n =>
    rw [count, List.take_succ_cons, List.take_nil, stream, length] at off
    omega

/-- With a stored value of 20000 bytes in the AOF a tick from the beginning of the
file leaves the cursor inside the packet. -/
theorem tick_not_on_boundary : ¬ ∀ (base : Nat) (files : List (List Pack)) (place : Place) (link : ReplicaLink),
    OnBoundary base files place link → base + files.length < 2 ^ 31 →
    ∃ link' message place', onSendIncrToSlave (aofDir base files) link = some (link', message) ∧
      OnBoundary base files place' link' := by
  intro always
  obtain ⟨p, size⟩ : ∃ p : Pack, p.size = 20008 := by
    have body : (List.replicate 20000 (0 : UInt8)).length = 20000 := List.length_replicate
    refine ⟨⟨0, 2000, List.replicate 20000 0, by rw [body]; decide⟩, ?_⟩
    rw [Pack.size, body]
  have start : OnBoundary 0 [[p]] ⟨0, 0⟩ ⟨genAofFilename 0, 0⟩ :=
    ⟨⟨[p], rfl, Nat.zero_le _⟩, rfl, fun _ _ => by rw [List.take_zero]; rfl⟩
  obtain ⟨link', message, place', ticked, boundary⟩ := always 0 [[p]] ⟨0, 0⟩ _ start
    (by rw [List.length_singleton]; decide)
  exact tick_inside 0 p (by rw [size]; decide) link' message ticked place' boundary

/-- The bytes that an event adds to the files. -/
def FeedingEvent.written : FeedingEvent → Nat
  | .write packs => (Pack.encodeAll packs).length
  | .rotate => 0
  | .tick => 0

/-- A history that stays shorter than a block, whatever is written, has only windows that fit.
By induction on the events: what is in the files and what is still to be written together
are never more than at the start. -/
theorem feedingFits_of_short (base : Nat) (s : Feeding) (events : List FeedingEvent)
    (numbered : base + s.files.length + events.length < 2 ^ 31)
    (short : (Pack.encodeAll s.files.flatten).length + (events.map FeedingEvent.written).sum < blockSize) :
    Along (feedingStep base) (FeedingFits base) s events := by
  induction events generalizing s with
  | nil => trivial
  | cons event events ih =>
    rw [List.map_cons, List.sum_cons] at short
    rw [List.length_cons] at numbered
    cases event with
    | write packs =>
      refine ⟨trivial, fun s' stepped => ?_⟩
      obtain ⟨final, last, rfl⟩ := Option.map_eq_some_iff.mp stepped
      obtain ⟨before, split⟩ := List.getLast?_eq_some_iff.mp last
      rw [FeedingEvent.written] at short
      refine ih _ ?_ ?_
      · simp only [split, List.dropLast_concat, List.length_append, List.length_singleton] at numbered ⊢
        omega
      · simp only [split, List.dropLast_concat, List.flatten_append, List.flatten_singleton, Pack.encodeAll_append,
          List.length_append] at short ⊢
        omega
    | rotate =>
      refine ⟨by simp only [FeedingFits]; omega, fun s' stepped => ?_⟩
      obtain rfl := Option.some.inj stepped
      rw [FeedingEvent.written] at short
      refine ih _ ?_ ?_
      · rw [List.length_append, List.length_singleton]
        omega
      · rw [List.flatten_append, List.flatten_singleton, List.append_nil]
        omega
    | tick =>
      rw [FeedingEvent.written] at short
      refine ⟨fun place _ => WindowFits.of_short ?_ place, fun s' stepped => ?_⟩
      · intro file among
        obtain ⟨before, after, split⟩ := List.append_of_mem among
        rw [split, List.flatten_append, List.flatten_cons, Pack.encodeAll_append, Pack.encodeAll_append,
          List.length_append, List.length_append] at short
        omega
      · obtain ⟨_, _, rfl⟩ := Option.map_eq_some_iff.mp stepped
        exact ih _ (by dsimp only; omega) (by dsimp only; omega)

/-- Packets with one stored byte. -/
def byteStored (byte : UInt8) : Pack := ⟨0, 2000, [byte], by rw [List.length_singleton]; decide⟩

/-- Two packets are written and sent, and behind a rotation a third one. -/
def overRotation : List FeedingEvent :=
  [.write [byteStored 8], .tick, .rotate, .tick, .write [byteStored 9], .tick]

/-- The messages carry the three packets, the first from before the run. Between the second and
the third the file is rotated. -/
theorem incremental_delivered_rotation : ∃ s place',
    run (feedingStep 0) ⟨[[byteStored 7]], ⟨genAofFilename 0, 0⟩, []⟩ overRotation = some s ∧
      OnBoundary 0 s.files place' s.link ∧ Follows 0 s.files 0 s.sent (place'.index s.files) ∧
      s.sent.map CommandAof.commands = [[[7], [8]], [[9]]] ∧
      s.sent.flatMap CommandAof.commands =
        (slice s.files 0 (place'.index s.files)).map fun pack => cString pack.body := by
  have start : OnBoundary 0 [[byteStored 7]] ⟨0, 0⟩ ⟨genAofFilename 0, 0⟩ :=
    ⟨⟨_, rfl, Nat.zero_le _⟩, rfl, fun _ _ => by rw [List.take_zero]; rfl⟩
  have sends : (run (feedingStep 0) ⟨[[byteStored 7]], ⟨genAofFilename 0, 0⟩, []⟩ overRotation).map
      (fun s => s.sent.map CommandAof.commands) = some [[[7], [8]], [[9]]] := by decide +kernel
  obtain ⟨s, place', ran, boundary, follows, _, commands⟩ :=
    incremental_delivered 0 _ ⟨0, 0⟩ _ overRotation start (by decide)
      (feedingFits_of_short 0 _ _ (by decide) (by decide +kernel))
  rw [ran, Option.map_some] at sends
  exact ⟨s, place', ran, boundary, follows, Option.some.inj sends, commands⟩

end Naruto.Replication
