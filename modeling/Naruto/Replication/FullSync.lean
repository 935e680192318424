import Mathlib.Data.List.Basic
import Naruto.Theory.BufferedOutput

/-!
# The transfer of a database file

The master sends its database file from an `ifstream` that it positions and reads
anew for every readiness event, at most 16 KiB at a time; the slave reads at most
4 KiB at a time, and never more than what is missing. The last chunk of the file is
short, and a short read leaves `failbit` set, which `seekg` does not clear: when the
last chunk is not written at once, the next event reads nothing and closes the link.

The slave writes to an `ofstream`, which keeps some of the bytes in its buffer. It renames
the file before it closes the stream. So the file is whole when it is loaded, but when it is
renamed only if the stream has kept nothing behind its last write. The slave's disk is taken
to have room for the file.
-/

namespace Naruto.Replication

open Naruto.Theory

/-- `replState`. -/
inductive ReplState
  | none
  | connect
  | connecting
  | receivePong
  | waitBgsave
  | transfor
  | connected
deriving DecidableEq, Repr

namespace FullSync

/-- `std::ifstream`, with its two error bits. -/
structure IfStream where
  content : List UInt8
  pos : Nat
  eofbit : Bool
  failbit : Bool
deriving DecidableEq, Repr

namespace IfStream

/-- `seekg(off, beg)`: clears `eofbit` first, and moves unless `failbit` is set. -/
def seekg (f : IfStream) (off : Nat) : IfStream :=
  if f.failbit then { f with eofbit := false } else { f with pos := off, eofbit := false }

/-- `read(buf, n)`, with the bytes that `gcount` counts. -/
def read (f : IfStream) (n : Nat) : IfStream × List UInt8 :=
  if f.eofbit ∨ f.failbit then ({ f with failbit := true }, [])
  else
    let buf := (f.content.drop f.pos).take n
    if buf.length < n then ({ f with pos := f.pos + buf.length, eofbit := true, failbit := true }, buf)
    else ({ f with pos := f.pos + n }, buf)

end IfStream

/-- `transfer_len` of `onSendBulkToSlave`. -/
def transferLen : Nat := 16384

/-- What `::write` returns: a number of bytes, `EAGAIN`, or another error. -/
inductive WriteResult
  | wrote (nwritten : Nat)
  | eagain
  | failed
deriving DecidableEq, Repr

/-- The part of a `replicaLink` that sends the file. `replDbf` is the stream of the file while
it is open. -/
structure BulkLink where
  replDbf : Option IfStream
  replDboff : Nat
  replDbsize : Nat
  replState : ReplState
  closed : Bool
deriving DecidableEq, Repr

/-- The link as `CommandPsync::exec` leaves it. -/
def BulkLink.start (file : List UInt8) : BulkLink := ⟨some ⟨file, 0, false, false⟩, 0, file.length, .transfor, false⟩

/-- `onSendBulkToSlave`: the link afterwards, and the bytes written. Nothing when
`::write` cannot have returned this. -/
def onSendBulkToSlave (link : BulkLink) (result : WriteResult) : Option (BulkLink × List UInt8) :=
  match link.replDbf with
  | none => some (link, [])
  | some f =>
    let read := (f.seekg link.replDboff).read transferLen
    let link := { link with replDbf := some read.1 }
    if read.2 = [] then some ({ link with closed := true }, [])
    else match result with
      | .failed => some ({ link with closed := true }, [])
      | .eagain => some (link, [])
      | .wrote nwritten =>
        if nwritten = 0 ∨ read.2.length < nwritten then none
        else
          let link := { link with replDboff := link.replDboff + nwritten }
          if link.replDboff = link.replDbsize then
            some ({ link with replDbf := none, replState := .connected }, read.2.take nwritten)
          else some (link, read.2.take nwritten)

/-- The readiness events, one after another: the link, and all bytes written. -/
def sendBulk : BulkLink → List WriteResult → Option (BulkLink × List UInt8)
  | link, [] => some (link, [])
  | link, result :: results => do
    let (link, wire) ← onSendBulkToSlave link result
    let (link, later) ← sendBulk link results
    some (link, wire ++ later)

/-- The slave's side of the transfer: the contents of the temporary file, what the stream on
it keeps, the contents that were renamed, and those that are loaded as the database. -/
structure Transfer where
  replTransferSize : Nat
  replTransferRead : Nat
  tmpfile : List UInt8
  kept : List UInt8
  renamed : Option (List UInt8)
  database : Option (List UInt8)
  replState : ReplState
deriving DecidableEq, Repr

/-- The transfer as the answer `FULLSYNC` starts it. -/
def Transfer.start (size : Nat) : Transfer := ⟨size, 0, [], [], none, none, .transfor⟩

-- How much the stream keeps in its buffer is the library's matter.
variable (keeping : Keeping)

/-- `onReadSyncBulkPayload` on a connection with some bytes: the transfer, and the bytes
left. Behind the last write the file is renamed, then the stream is closed, then the file is
loaded. Nothing when `::read` cannot have returned this number. -/
def onReadSyncBulkPayload (t : Transfer) (stream : List UInt8) (nread : Nat) : Option (Transfer × List UInt8) :=
  let left := t.replTransferSize - t.replTransferRead
  let readlen := min left 4096
  if nread = 0 ∨ readlen < nread ∨ stream.length < nread then none
  else
    let parts := keeping.split t.kept (stream.take nread)
    let t := { t with
      tmpfile := t.tmpfile ++ parts.1
      kept := parts.2
      replTransferRead := t.replTransferRead + nread }
    if t.replTransferRead = t.replTransferSize then
      let t := { t with renamed := some t.tmpfile }
      let t := { t with tmpfile := t.tmpfile ++ t.kept, kept := [] }
      some ({ t with database := some t.tmpfile, replState := .connected }, stream.drop nread)
    else some (t, stream.drop nread)

/-- The readiness events of the slave. -/
def readBulk : Transfer → List UInt8 → List Nat → Option (Transfer × List UInt8)
  | t, stream, [] => some (t, stream)
  | t, stream, nread :: reads => do
    let (t, stream) ← onReadSyncBulkPayload keeping t stream nread
    readBulk t stream reads

/-- Results of `::write` on a connection that does not fail, for the bytes left: short
counts and `EAGAIN` in any order, until all bytes are written. -/
def Writes : Nat → List WriteResult → Prop
  | left, [] => left = 0
  | left, .wrote nwritten :: results => 0 < nwritten ∧ nwritten ≤ min left transferLen ∧ Writes (left - nwritten) results
  | left, .eagain :: results => 0 < left ∧ Writes left results
  | _, .failed :: _ => False

/-- Results of `::read` on a connection that does not fail, for the bytes missing. -/
def Reads : Nat → List Nat → Prop
  | left, [] => left = 0
  | left, nread :: reads => 0 < nread ∧ nread ≤ min left 4096 ∧ Reads (left - nread) reads

/-- When fewer than 16 KiB are left, the next write takes them all. -/
def LastWhole : Nat → List WriteResult → Prop
  | _, [] => True
  | left, .wrote nwritten :: results => (left < transferLen → nwritten = left) ∧ LastWhole (left - nwritten) results
  | left, _ :: results => transferLen ≤ left ∧ LastWhole left results

/-- The transfer completes: the master sends exactly the file and goes on to incremental
sending; the slave has exactly the file when it renames it and when it loads it, and leaves
the bytes behind the file to others. -/
def Completes (file later : List UInt8) (writes : List WriteResult) (reads : List Nat) : Prop :=
  ∃ link wire t, sendBulk (BulkLink.start file) writes = some (link, wire) ∧ link.replState = .connected ∧
    link.closed = false ∧ wire = file ∧
    readBulk keeping (Transfer.start file.length) (wire ++ later) reads = some (t, later) ∧ t.replState = .connected ∧
    t.renamed = some file ∧ t.database = some file

/-- The link with some of the file sent. -/
def BulkLink.sending (f : IfStream) (off : Nat) : BulkLink := ⟨some f, off, f.content.length, .transfor, false⟩

/-- The stream behind a read at an offset: at the end of the file both error bits are set. -/
def chunkStream (file : List UInt8) (off : Nat) : IfStream :=
  if file.length - off < transferLen then ⟨file, off + (file.length - off), true, true⟩
  else ⟨file, off + transferLen, false, false⟩

/-- What an event reads from a stream without error bits. -/
theorem read_chunk (file : List UInt8) (pos off : Nat) :
    ((IfStream.mk file pos false false).seekg off).read transferLen =
      (chunkStream file off, (file.drop off).take transferLen) := by
  have length : (file.drop off).length = file.length - off := List.length_drop
  rw [chunkStream]
  by_cases short : file.length - off < transferLen
  · have whole : (file.drop off).take transferLen = file.drop off :=
      List.take_of_length_le (by rw [length]; exact Nat.le_of_lt short)
    simp only [IfStream.seekg, IfStream.read, Bool.false_eq_true, ↓reduceIte, or_self, short, whole, length]
  · have more : ¬ ((file.drop off).take transferLen).length < transferLen := by
      rw [List.length_take, length]
      omega
    simp only [IfStream.seekg, IfStream.read, Bool.false_eq_true, ↓reduceIte, or_self, more, short]

/-- Reading a chunk leaves the file as it is. -/
theorem chunk_content (file : List UInt8) (off : Nat) : (chunkStream file off).content = file := by
  rw [chunkStream]
  split <;> rfl

/-- Something is read while something is left. -/
theorem chunk_ne_nil {file : List UInt8} {off : Nat} (left : off < file.length) :
    (file.drop off).take transferLen ≠ [] := by
  intro nothing
  have length := congrArg List.length nothing
  rw [List.length_take, List.length_drop, List.length_nil] at length
  have positive : 0 < transferLen := by decide
  omega

/-- An event with a partial write: the chunk's beginning is sent. The rest of the chunk is read
again by the next event, from the new offset. -/
theorem event_wrote {file : List UInt8} {pos off nwritten : Nat} (left : off < file.length) (positive : 0 < nwritten)
    (bound : nwritten ≤ min (file.length - off) transferLen) :
    onSendBulkToSlave (BulkLink.sending ⟨file, pos, false, false⟩ off) (.wrote nwritten) = some
      (if off + nwritten = file.length then ⟨none, off + nwritten, file.length, .connected, false⟩
        else BulkLink.sending (chunkStream file off) (off + nwritten), (file.drop off).take nwritten) := by
  have length : ((file.drop off).take transferLen).length = min transferLen (file.length - off) := by
    rw [List.length_take, List.length_drop]
  have accepted : ¬ (nwritten = 0 ∨ ((file.drop off).take transferLen).length < nwritten) := by
    rw [length]
    omega
  have sent : ((file.drop off).take transferLen).take nwritten = (file.drop off).take nwritten := by
    rw [List.take_take, Nat.min_eq_left (by omega)]
  simp only [onSendBulkToSlave, BulkLink.sending, read_chunk, if_neg (chunk_ne_nil left), if_neg accepted, sent,
    chunk_content]
  by_cases last : off + nwritten = file.length
  · rw [if_pos last, if_pos last]
  · rw [if_neg last, if_neg last]

/-- An event that meets `EAGAIN`: the chunk has been read, and nothing is sent. -/
theorem event_eagain {file : List UInt8} {pos off : Nat} (left : off < file.length) :
    onSendBulkToSlave (BulkLink.sending ⟨file, pos, false, false⟩ off) .eagain =
      some (BulkLink.sending (chunkStream file off) off, []) := by
  simp only [onSendBulkToSlave, BulkLink.sending, read_chunk, if_neg (chunk_ne_nil left), chunk_content]

/-- Nothing is left only when there are no more results. -/
theorem Writes.eq_nil {results : List WriteResult} (writes : Writes 0 results) : results = [] := by
  cases results with
  | nil => rfl
  | cons result results =>
    cases result with
    | wrote nwritten =>
      obtain ⟨positive, bound, _⟩ := writes
      omega
    | eagain => exact absurd writes.1 (Nat.lt_irrefl 0)
    | failed => exact writes.elim

/-- When the last chunk is written at once, the master sends the rest of the file. The
induction is on the results; as long as a whole chunk is left, the stream has no error bits. -/
theorem sendBulk_whole (file : List UInt8) (pos off : Nat) (results : List WriteResult) (left : off < file.length)
    (writes : Writes (file.length - off) results) (whole : LastWhole (file.length - off) results) :
    sendBulk (BulkLink.sending ⟨file, pos, false, false⟩ off) results =
      some (⟨none, file.length, file.length, .connected, false⟩, file.drop off) := by
  induction results generalizing pos off with
  | nil =>
    have sent : file.length - off = 0 := writes
    omega
  | cons result results ih =>
    have whole' : transferLen ≤ file.length - off → chunkStream file off = ⟨file, off + transferLen, false, false⟩ :=
      fun more => if_neg (Nat.not_lt.mpr more)
    cases result with
    | wrote nwritten =>
      obtain ⟨positive, bound, rest⟩ := writes
      obtain ⟨last, later⟩ := whole
      have remaining : file.length - off - nwritten = file.length - (off + nwritten) := Nat.sub_sub _ _ _
      rw [remaining] at rest later
      rw [sendBulk, event_wrote left positive bound]
      by_cases done : off + nwritten = file.length
      · rw [done, Nat.sub_self] at rest
        rw [if_pos done, rest.eq_nil, done]
        have all : (file.drop off).take nwritten = file.drop off :=
          List.take_of_length_le (by rw [List.length_drop]; omega)
        simp only [Option.bind_eq_bind, Option.bind_some, sendBulk, List.append_nil, all]
      · have more : transferLen ≤ file.length - off := by
          by_contra short
          have taken := last (Nat.not_le.mp short)
          omega
        rw [if_neg done, whole' more]
        simp only [Option.bind_eq_bind, Option.bind_some,
          ih (off + transferLen) (off + nwritten) (by omega) rest later]
        rw [← List.drop_drop, List.take_append_drop]
    | eagain =>
      obtain ⟨_, rest⟩ := writes
      obtain ⟨more, later⟩ := whole
      rw [sendBulk, event_eagain left, whole' more]
      simp only [Option.bind_eq_bind, Option.bind_some, ih (off + transferLen) off left rest later, List.nil_append]
    | failed => exact writes.elim

/-- What follows the first event of a transfer. -/
theorem sendBulk_tail {link middle link' : BulkLink} {result : WriteResult} {results : List WriteResult}
    {front wire : List UInt8} (event : onSendBulkToSlave link result = some (middle, front))
    (sent : sendBulk link (result :: results) = some (link', wire)) :
    ∃ later, sendBulk middle results = some (link', later) := by
  simp only [sendBulk, event, Option.bind_eq_bind, Option.bind_some] at sent
  obtain ⟨⟨last, later⟩, rest, same⟩ := Option.bind_eq_some_iff.mp sent
  obtain ⟨rfl, _⟩ := Prod.mk.inj (Option.some.inj same)
  exact ⟨later, rest⟩

/-- A stream whose `failbit` is set reads nothing any more: the transfer does not get
to its end. -/
theorem sendBulk_failed (link link' : BulkLink) (f : IfStream) (results : List WriteResult) (wire : List UInt8)
    (stream : link.replDbf = some f) (failed : f.failbit = true)
    (sent : sendBulk link results = some (link', wire)) : link'.replState = link.replState := by
  induction results generalizing link f wire with
  | nil =>
    obtain ⟨rfl, _⟩ := Prod.mk.inj (Option.some.inj sent)
    rfl
  | cons result results ih =>
    have nothing : (f.seekg link.replDboff).read transferLen = ({ f with eofbit := false, failbit := true }, []) := by
      simp only [IfStream.seekg, IfStream.read, failed, ↓reduceIte, or_true]
    have event : onSendBulkToSlave link result =
        some ({ link with replDbf := some { f with eofbit := false, failbit := true }, closed := true }, []) := by
      simp only [onSendBulkToSlave, stream, nothing, ↓reduceIte]
    obtain ⟨later, rest⟩ := sendBulk_tail event sent
    have state := ih _ { f with eofbit := false, failbit := true } later rfl rfl rest
    exact state

/-- A transfer that gets to its end has written the last chunk at once. Otherwise the stream is
left with `failbit` by a short read, and the next event reads nothing and closes the link. -/
theorem sendBulk_connected (file : List UInt8) (pos off : Nat) (results : List WriteResult) (link : BulkLink)
    (wire : List UInt8) (left : off < file.length) (writes : Writes (file.length - off) results)
    (sent : sendBulk (BulkLink.sending ⟨file, pos, false, false⟩ off) results = some (link, wire))
    (connected : link.replState = .connected) : LastWhole (file.length - off) results := by
  induction results generalizing pos off wire with
  | nil => trivial
  | cons result results ih =>
    have whole : transferLen ≤ file.length - off → chunkStream file off = ⟨file, off + transferLen, false, false⟩ :=
      fun more => if_neg (Nat.not_lt.mpr more)
    have stuck : ∀ off' wire, sendBulk (BulkLink.sending (chunkStream file off) off') results = some (link, wire) →
        transferLen ≤ file.length - off := by
      intro off' wire rest
      by_contra short
      have failed : (chunkStream file off).failbit = true := by
        rw [chunkStream, if_pos (Nat.not_le.mp short)]
      have state := sendBulk_failed _ link _ results wire rfl failed rest
      cases connected.symm.trans state
    cases result with
    | wrote nwritten =>
      obtain ⟨positive, bound, rest⟩ := writes
      have remaining : file.length - off - nwritten = file.length - (off + nwritten) := Nat.sub_sub _ _ _
      rw [remaining] at rest
      rw [LastWhole, remaining]
      obtain ⟨later, behind⟩ := sendBulk_tail (event_wrote left positive bound) sent
      by_cases done : off + nwritten = file.length
      · rw [done, Nat.sub_self] at rest
        rw [rest.eq_nil]
        exact ⟨fun _ => by omega, trivial⟩
      · rw [if_neg done] at behind
        have more := stuck _ _ behind
        rw [whole more] at behind
        exact ⟨fun short => absurd more (Nat.not_le.mpr short), ih _ _ _ (by omega) rest behind⟩
    | eagain =>
      obtain ⟨later, behind⟩ := sendBulk_tail (event_eagain left) sent
      have more := stuck _ _ behind
      rw [whole more] at behind
      exact ⟨more, ih _ _ _ left writes.2 behind⟩
    | failed => exact writes.elim

/-- The slave receives the file, whatever the pieces it reads, and nothing behind it. The
file is renamed without what the stream keeps behind the last write. The induction is on the
reads: file and buffer together have what was received. -/
theorem readBulk_reads (file later : List UInt8) (received : Nat) (reads : List Nat) (tmpfile kept : List UInt8)
    (left : received < file.length) (possible : Reads (file.length - received) reads)
    (together : tmpfile ++ kept = file.take received) :
    ∃ front back, readBulk keeping ⟨file.length, received, tmpfile, kept, none, none, .transfor⟩
        (file.drop received ++ later) reads =
          some (⟨file.length, file.length, file, [], some front, some file, .connected⟩, later) ∧
      front ++ back = file ∧ back.length = keeping.behind kept.length reads := by
  induction reads generalizing received tmpfile kept with
  | nil =>
    have ended : file.length - received = 0 := possible
    omega
  | cons nread reads ih =>
    obtain ⟨positive, bound, rest⟩ := possible
    have length : (file.drop received).length = file.length - received := List.length_drop
    have accepted : ¬ (nread = 0 ∨ min (file.length - received) 4096 < nread ∨
        (file.drop received ++ later).length < nread) := by
      rw [List.length_append, length]
      omega
    have inside : nread ≤ (file.drop received).length := by omega
    have taken : (file.drop received ++ later).take nread = (file.drop received).take nread :=
      List.take_append_of_le_length inside
    have behind : (file.drop received ++ later).drop nread = file.drop (received + nread) ++ later := by
      rw [List.drop_append_of_le_length inside, List.drop_drop]
    have written : ((file.drop received).take nread).length = nread := List.length_take_of_le inside
    have both := keeping.split_append kept ((file.drop received).take nread)
    have count := keeping.split_length kept ((file.drop received).take nread)
    rw [written] at count
    have all : (tmpfile ++ (keeping.split kept ((file.drop received).take nread)).1) ++
        (keeping.split kept ((file.drop received).take nread)).2 = file.take (received + nread) := by
      rw [List.append_assoc, both, ← List.append_assoc, together, ← List.take_add]
    rw [readBulk, Keeping.behind, ← count]
    simp only [onReadSyncBulkPayload, if_neg accepted, taken, behind]
    generalize keeping.split kept ((file.drop received).take nread) = parts at all
    rw [Nat.sub_sub] at rest
    by_cases last : received + nread = file.length
    · rw [last, Nat.sub_self] at rest
      have ended : reads = [] := by
        cases reads with
        | nil => rfl
        | cons more reads =>
          obtain ⟨positive', bound', _⟩ := rest
          omega
      rw [last, List.take_length] at all
      refine ⟨tmpfile ++ parts.1, parts.2, ?_, all, by rw [ended, Keeping.behind]⟩
      rw [if_pos last, last, ended]
      simp only [Option.bind_eq_bind, Option.bind_some, readBulk, List.drop_length, List.nil_append, all]
    · rw [if_neg last]
      exact ih (received + nread) _ _ (by omega) rest all

variable {keeping}

/-- On connections that do not fail, a transfer completes exactly when the master writes the
last, short chunk of the file at once, and the slave's stream keeps nothing behind its last
write.

Proof: the master's condition is what keeps the error bits of its stream away; a short read
that is not written at once is followed by an event that reads nothing. The slave's file and
buffer together are what it has received, by induction on its reads, so they are the file when
it is renamed, and the file alone is only when the buffer is empty. -/
theorem completes_iff (file later : List UInt8) (writes : List WriteResult) (reads : List Nat)
    (something : file ≠ []) (sends : Writes file.length writes) (receives : Reads file.length reads) :
    Completes keeping file later writes reads ↔ LastWhole file.length writes ∧ keeping.behind 0 reads = 0 := by
  have left : 0 < file.length := List.length_pos_iff.mpr something
  obtain ⟨front, back, received, whole, count⟩ :=
    readBulk_reads keeping file later 0 reads [] [] left receives rfl
  constructor
  · rintro ⟨link, wire, t, sent, connected, _, rfl, read, _, renamed, _⟩
    refine ⟨sendBulk_connected wire 0 0 writes link wire left sends sent connected, ?_⟩
    obtain ⟨rfl, _⟩ := Prod.mk.inj (Option.some.inj (received.symm.trans read))
    have same : front = wire := Option.some.inj renamed
    have nothing : back = [] := by simpa [same] using whole
    exact count.symm.trans (congrArg List.length nothing)
  · rintro ⟨atOnce, nothing⟩
    have sent := sendBulk_whole file 0 0 writes left sends atOnce
    have empty : back = [] := List.length_eq_zero_iff.mp (count.trans nothing)
    have same : front = file := by simpa [empty] using whole
    exact ⟨_, _, _, sent, rfl, rfl, rfl, received, rfl, congrArg some same, rfl⟩

/-- A file of 8192 bytes, written at once and read in two pieces. The stream hands on writes of
1024 bytes and more at once, and keeps nothing of the second. -/
theorem completes_at_once :
    Completes (Keeping.ofSize 1024 8191) (List.replicate 8192 7) [9] [.wrote 8192] [4096, 4096] := by
  have length : (List.replicate 8192 (7 : UInt8)).length = 8192 := List.length_replicate
  refine (completes_iff (List.replicate 8192 7) [9] [.wrote 8192] [4096, 4096]
    (List.ne_nil_of_length_pos (by rw [length]; decide)) ?_ ?_).mpr ⟨?_, by decide⟩
  · rw [length]
    exact ⟨by decide, by decide, rfl⟩
  · rw [length]
    exact ⟨by decide, by decide, by decide, by decide, rfl⟩
  · rw [length]
    exact ⟨fun _ => rfl, trivial⟩

/-- A file of three bytes, written in two parts: the second event reads nothing. -/
theorem aborts_in_two : ¬ ∀ (file later : List UInt8) (writes : List WriteResult) (reads : List Nat),
    file ≠ [] → Writes file.length writes → Reads file.length reads →
      Completes (Keeping.ofSize 1024 8191) file later writes reads := by
  intro always
  obtain ⟨link, wire, _, sent, connected, _⟩ := always [1, 2, 3] [] [.wrote 1, .wrote 2] [3] (List.cons_ne_nil _ _)
    ⟨by decide, by decide, by decide, by decide, rfl⟩ ⟨by decide, by decide, rfl⟩
  have state : (sendBulk (BulkLink.start [1, 2, 3]) [.wrote 1, .wrote 2]).map (fun result => result.1.replState) =
      some .transfor := by
    decide +kernel
  rw [sent, Option.map_some, connected] at state
  cases state

end FullSync

end Naruto.Replication
