import Naruto.Replication.Backlog
import Naruto.Theory.Runs
import Naruto.Utils.PackCodec

/-!
# The backlog, byte by byte

Behind the records of `Backlog` are buffers of bytes. Feeding a packet appends eight
bytes with its number to the worker's buffer, and then the packet, in one of three ways.
The merge keeps a cursor for every buffer, which stands on a number when a head is made
and on the packet behind it when the head is taken, and finds the end of the packet by
its length word. The two byte counts of the object are `long long`.

The buffers hold records, numbered by 64 bits, and the merge does what the merge of
records does. The cursors are kept as natural numbers, which the code's `int` are below
2 GiB.
-/

namespace Naruto.Replication

open Naruto.Theory Naruto.Utils

/-- The part of `Replication` that commands pass through, with its buffers. The last field
is what the AOF has been given. -/
structure ByteBacklog (m : Nat) where
  replPos : Bool
  repl : Bool → Fin m → Bytes
  replCommandIncr : UInt64
  backLog : List UInt8
  masterReplOffset : Int64
  masterFlushReplOffset : Int64
  aof : List UInt8

/-- The arguments of the three overloads of `backlogFeed`: raw bytes and a type, a message
and a type, or a buffer with a packet. -/
inductive FeedCall (M : Type)
  | raw (s : List UInt8) (type : UInt16)
  | message (msg : M) (type : UInt16)
  | packed (pack : Bytes)

variable {m : Nat} {M : Type}

/-- How they append to the worker's buffer. -/
def FeedCall.append (proto : Protobuf M) : FeedCall M → Bytes → Option Bytes
  | .raw s type, localRepl => Pack.serializeTo s type localRepl
  | .message msg type, localRepl => Pack.serializeMessage proto msg type localRepl
  | .packed pack, localRepl => localRepl.put pack

/-- The packet that a call feeds. -/
def FeedCall.Feeds (proto : Protobuf M) (call : FeedCall M) (p : Pack) : Prop :=
  match call with
  | .raw s type => p.flag = 0 ∧ p.type = type ∧ p.body = s
  | .message msg type => p.flag = 0 ∧ p.type = type ∧ p.body = proto.serialize msg
  | .packed pack => pack.buf = p.serialize

/-- Its bytes. -/
def FeedCall.bytes (proto : Protobuf M) : FeedCall M → List UInt8
  | .raw s type => Pack.serializeStream Pack.raw s type []
  | .message msg type => Pack.serializeStream proto msg type []
  | .packed pack => pack.buf

namespace ByteBacklog

/-- The counters and buffers of a new process. -/
def initializer : ByteBacklog m := ⟨false, fun _ _ => Bytes.cleared, 0, [], 0, 0, []⟩

/-- `backlogFeed`. The number and then the packet are put into the worker's buffer of the
current set; the counter goes on by one. -/
def backlogFeed (proto : Protobuf M) (b : ByteBacklog m) (tid : Fin m) (call : FeedCall M) :
    Option (ByteBacklog m) := do
  let localRepl := b.repl b.replPos tid
  let commandId := b.replCommandIncr
  let localRepl ← localRepl.putLong commandId
  let localRepl ← call.append proto localRepl
  some { b with
    repl := Function.update b.repl b.replPos (Function.update (b.repl b.replPos) tid localRepl)
    replCommandIncr := commandId + 1 }

/-- `_backlog_feed`: the bytes go to `back_log_` and are counted. -/
def feedBytes (data : List UInt8) (sent : List UInt8 × Int64) : List UInt8 × Int64 :=
  (sent.1 ++ data, sent.2 + Int64.ofNat data.length)

/-- The `while` loop of the merge, with the cursors `p` and the heads `id_list`. Nothing
when it is not done after so many rounds, or when a packet does not lie in its buffer. -/
def mergeBytes (sorting : Sorting m) (data : Fin m → Bytes) :
    Nat → (Fin m → Nat) → List (Head m) → List UInt8 × Int64 → Option (List UInt8 × Int64)
  | 0, _, _, _ => none
  | rounds + 1, p, idList, sent =>
    match sorting.sort idList with
    | [] => some sent
    | least :: others =>
      let minBucket := data least.slot
      let pos := p least.slot
      let packSize := minBucket.readAt 4 (UInt32.ofNat pos)
      if minBucket.buf.length < pos + packSize then none
      else
        let sent := feedBytes ((minBucket.buf.drop pos).take packSize) sent
        let next := pos + packSize
        if next < minBucket.size.toNat then
          mergeBytes sorting data rounds (Function.update p least.slot (next + 8))
            (others ++ [⟨least.slot, minBucket.readAt 8 (UInt32.ofNat next)⟩]) sent
        else mergeBytes sorting data rounds (Function.update p least.slot next) others sent

/-- The other buffers are cleared and become the current ones. -/
def swap (b : ByteBacklog m) : ByteBacklog m :=
  { b with repl := Function.update b.repl (!b.replPos) fun _ => Bytes.cleared, replPos := !b.replPos }

/-- `_backlog_flush`. -/
def backlogFlush (b : ByteBacklog m) : ByteBacklog m :=
  if b.backLog = [] then b
  else { b with
    aof := b.aof ++ b.backLog
    masterFlushReplOffset := b.masterFlushReplOffset + Int64.ofNat b.backLog.length
    backLog := [] }

/-- The number of rounds after which the merge is done: there are no more records than bytes. -/
def rounds (data : Fin m → Bytes) : Nat := ((List.finRange m).map fun slot => (data slot).buf.length).sum + 1

/-- `_merge_backlog_feed_slaves`. The buffers swap first. The numbers at the front of the ones
that were current are the heads, and the loop feeds the packets in their order. -/
def mergeBacklogFeedSlaves (sorting : Sorting m) (b : ByteBacklog m) : Option (ByteBacklog m) := do
  let curPos := b.replPos
  let b := b.swap
  let data := b.repl curPos
  let idList := (List.finRange m).filterMap fun j =>
    if 0 < (data j).size.toNat then some (⟨j, (data j).readAt 8 0⟩ : Head m) else none
  let p := fun j => if 0 < (data j).size.toNat then 8 else 0
  let sent ← mergeBytes sorting data (rounds data) p idList (b.backLog, b.masterReplOffset)
  some { b with backLog := sent.1, masterReplOffset := sent.2 }.backlogFlush

end ByteBacklog

/-- A feed of a worker, or a merge. -/
inductive FeedEvent (m : Nat) (M : Type)
  | feed (tid : Fin m) (call : FeedCall M)
  | merge

namespace ByteBacklog

/-- One event. -/
def step (proto : Protobuf M) (sorting : Sorting m) (b : ByteBacklog m) : FeedEvent m M → Option (ByteBacklog m)
  | .feed tid call => b.backlogFeed proto tid call
  | .merge => b.mergeBacklogFeedSlaves sorting

/-- What is fed is a packet, and the buffer it goes to stays below 2 GiB. -/
def Fits (proto : Protobuf M) (b : ByteBacklog m) : FeedEvent m M → Prop
  | .feed tid call => ∃ p, call.Feeds proto p ∧ (b.repl b.replPos tid).buf.length + (8 + p.size) < 2 ^ 31
  | .merge => True

/-- The number of packets that are fed. -/
def fedCount (events : List (FeedEvent m M)) : Nat := events.countP fun
  | .feed _ _ => true
  | .merge => false

/-- The bytes of the packets that are fed. -/
def fedBytes (proto : Protobuf M) (events : List (FeedEvent m M)) : List UInt8 :=
  events.flatMap fun
    | .feed _ call => call.bytes proto
    | .merge => []

end ByteBacklog

/-- The bytes of a record in a buffer. -/
def Record.bytes (r : Record) : List UInt8 := leBytes 8 r.id ++ r.pack.serialize

/-- The bytes of a buffer with records. -/
def recordsBytes (records : List Record) : List UInt8 := records.flatMap Record.bytes

/-- A record is its packet behind an eight-byte number. -/
theorem Record.bytes_length (r : Record) : r.bytes.length = 8 + r.pack.size := by
  rw [bytes, List.length_append, leBytes_length, Pack.serialize_length]

/-- The bytes of records are those of the first one and of the others, -/
theorem recordsBytes_cons (r : Record) (records : List Record) :
    recordsBytes (r :: records) = r.bytes ++ recordsBytes records := rfl

/-- or those of the last one behind the others'. -/
theorem recordsBytes_snoc (r : Record) (records : List Record) :
    recordsBytes (records ++ [r]) = recordsBytes records ++ r.bytes := by
  rw [recordsBytes, List.flatMap_append, List.flatMap_singleton]
  rfl

/-- There are no more records than bytes. -/
theorem length_le_recordsBytes (records : List Record) : records.length ≤ (recordsBytes records).length := by
  induction records with
  | nil => exact Nat.le_refl _
  | cons r records ih =>
    rw [recordsBytes_cons, List.length_append, r.bytes_length, List.length_cons]
    omega

/-- What a call appends is the packet it feeds. -/
theorem FeedCall.Feeds.bytes {proto : Protobuf M} {call : FeedCall M} {p : Pack} (feeds : call.Feeds proto p) :
    call.bytes proto = p.serialize := by
  obtain ⟨flag, type, body, fits⟩ := p
  cases call with
  | raw s type' =>
    obtain ⟨rfl, rfl, rfl⟩ := feeds
    exact (@Pack.serializeStream_eq _ Pack.raw body type fits []).trans (List.nil_append _)
  | message msg type' =>
    obtain ⟨rfl, rfl, rfl⟩ := feeds
    exact (@Pack.serializeStream_eq _ proto msg type fits []).trans (List.nil_append _)
  | packed pack => exact feeds

/-- All three overloads append the packet. They differ in where its bytes come from: type and
body, a message, or a buffer with a whole packet. -/
theorem FeedCall.Feeds.append {proto : Protobuf M} {call : FeedCall M} {p : Pack} (feeds : call.Feeds proto p)
    (buf : List UInt8) (room : buf.length + p.size < 2 ^ 32) :
    call.append proto (Bytes.filled buf 0) = some (Bytes.filled (buf ++ p.serialize) 0) := by
  obtain ⟨flag, type, body, fits⟩ := p
  cases call with
  | raw s type' =>
    obtain ⟨rfl, rfl, rfl⟩ := feeds
    exact Pack.serializeTo_filled type body fits buf 0 room
  | message msg type' =>
    obtain ⟨rfl, rfl, rfl⟩ := feeds
    exact Pack.serializeMessage_filled msg type fits buf 0 room
  | packed pack =>
    have stored : pack.buf = (Pack.mk flag type body fits).serialize := feeds
    have length : pack.buf.length = 8 + body.length := by
      rw [stored, Pack.serialize_length, Pack.size]
    have size : pack.size.toNat = pack.buf.length := by
      rw [Bytes.size, word_toNat _ (by omega)]
    rw [FeedCall.append, Bytes.put, size, List.take_length, stored]
    exact Bytes.putBytes_filled buf _ 0 (by rw [Pack.serialize_length]; exact room)

/-- A number and the packet behind it make a record. -/
theorem FeedCall.Feeds.record {proto : Protobuf M} {call : FeedCall M} {r : Record} (feeds : call.Feeds proto r.pack)
    (numbered : r.id < 2 ^ 64) (records : List Record)
    (room : (recordsBytes records).length + (8 + r.pack.size) < 2 ^ 31) :
    ((Bytes.filled (recordsBytes records) 0).putLong (UInt64.ofNat r.id)).bind (call.append proto) =
      some (Bytes.filled (recordsBytes (records ++ [r])) 0) := by
  have number : (UInt64.ofNat r.id).toNat = r.id := UInt64.toNat_ofNat_of_lt' numbered
  have long : (Bytes.filled (recordsBytes records) 0).putLong (UInt64.ofNat r.id) =
      some (Bytes.filled (recordsBytes records ++ leBytes 8 r.id) 0) := by
    rw [Bytes.putLong, number]
    exact Bytes.append_filled _ _ 0 (by rw [leBytes_length]; omega)
  have packet := feeds.append (recordsBytes records ++ leBytes 8 r.id)
    (by rw [List.length_append, leBytes_length]; omega)
  rw [long, Option.bind_some, packet, recordsBytes_snoc, Record.bytes, List.append_assoc]

namespace ByteBacklog

/-- Buffers with the records of a backlog, and counters that have counted what it has. Buffer
by buffer the bytes are those of the records, and every record has the number and the packet
that was fed. -/
structure Stores (bytes : ByteBacklog m) (b : Backlog m) : Prop where
  replPos : bytes.replPos = b.replPos
  repl : ∀ set slot, bytes.repl set slot = Bytes.filled (recordsBytes (b.repl set slot)) 0
  short : ∀ set slot, (recordsBytes (b.repl set slot)).length < 2 ^ 31
  numbered : ∀ set slot, ∀ r ∈ b.repl set slot, r.id < 2 ^ 64
  incr : bytes.replCommandIncr = UInt64.ofNat b.replCommandIncr
  backLog : bytes.backLog = []
  aof : bytes.aof = Pack.encodeAll b.aof
  offset : bytes.masterReplOffset = Int64.ofNat bytes.aof.length
  flushOffset : bytes.masterFlushReplOffset = Int64.ofNat bytes.aof.length

/-- A new backlog stores the empty lists of records. -/
theorem Stores.initializer : Stores (initializer : ByteBacklog m) (Backlog.initializer 1 []) where
  replPos := rfl
  repl := fun _ _ => rfl
  short := fun _ _ => (by decide : (0 : Nat) < 2 ^ 31)
  numbered := fun _ _ _ member => absurd member List.not_mem_nil
  incr := rfl
  backLog := rfl
  aof := rfl
  offset := rfl
  flushOffset := rfl

/-- `backlogFeed` of the records, with a number of 64 bits. -/
def feedRecord (b : Backlog m) (tid : Fin m) (p : Pack) : Backlog m :=
  { b with replCommandIncr := b.replCommandIncr + 1 }.put b.replPos tid ⟨b.replCommandIncr % 2 ^ 64, p⟩

/-- It is that with an unbounded number as long as the numbers last. -/
theorem feedRecord_eq (b : Backlog m) (tid : Fin m) (p : Pack) (numbers : b.replCommandIncr < 2 ^ 64) :
    feedRecord b tid p = b.backlogFeed tid p := by
  rw [feedRecord, Nat.mod_eq_of_lt numbers]
  rfl

/-- What holds of a slot's records and its buffer still holds when one slot of the current
set has got both a new record and its bytes. -/
theorem Stores.put_slots (bytes : ByteBacklog m) (b : Backlog m) (tid : Fin m) (r : Record) (localRepl : Bytes)
    (Q : List Record → Bytes → Prop) (here : Q (b.repl b.replPos tid ++ [r]) localRepl)
    (others : ∀ set slot, Q (b.repl set slot) (bytes.repl set slot)) (set : Bool) (slot : Fin m) :
    Q ((b.put b.replPos tid r).repl set slot) (Function.update bytes.repl b.replPos
      (Function.update (bytes.repl b.replPos) tid localRepl) set slot) := by
  have fed : (b.put b.replPos tid r).repl = Function.update b.repl b.replPos
      (Function.update (b.repl b.replPos) tid (b.repl b.replPos tid ++ [r])) := rfl
  rw [fed]
  by_cases current : set = b.replPos
  · subst current
    rw [Function.update_self, Function.update_self]
    by_cases same : slot = tid
    · subst same
      rw [Function.update_self, Function.update_self]
      exact here
    · rw [Function.update_of_ne same, Function.update_of_ne same]
      exact others _ slot
  · rw [Function.update_of_ne current, Function.update_of_ne current]
    exact others set slot

/-- Feeding a packet stores its record. The number and the packet go behind the bytes of the
worker's buffer, and the counter goes on. -/
theorem Stores.feed {proto : Protobuf M} {bytes : ByteBacklog m} {b : Backlog m} (stores : Stores bytes b)
    {tid : Fin m} {call : FeedCall M} {p : Pack} (feeds : call.Feeds proto p)
    (room : (bytes.repl bytes.replPos tid).buf.length + (8 + p.size) < 2 ^ 31) :
    ∃ bytes', bytes.backlogFeed proto tid call = some bytes' ∧ Stores bytes' (feedRecord b tid p) := by
  obtain ⟨r, made⟩ : ∃ r : Record, r = ⟨b.replCommandIncr % 2 ^ 64, p⟩ := ⟨_, rfl⟩
  have bound : r.id < 2 ^ 64 := made ▸ Nat.mod_lt _ (by decide)
  obtain rfl : r.pack = p := congrArg Record.pack made
  have number : bytes.replCommandIncr = UInt64.ofNat r.id := by
    rw [stores.incr, made]
    exact (UInt64.ofNat_mod_size).symm
  have buffer := stores.repl b.replPos tid
  have stored : (Bytes.filled (recordsBytes (b.repl b.replPos tid)) 0).buf = recordsBytes (b.repl b.replPos tid) := rfl
  rw [stores.replPos, buffer, stored] at room
  have written := feeds.record bound (b.repl b.replPos tid) room
  have length : (recordsBytes (b.repl b.replPos tid ++ [r])).length < 2 ^ 31 := by
    rw [recordsBytes_snoc, List.length_append, Record.bytes_length]
    exact room
  have fed : feedRecord b tid r.pack = { b with replCommandIncr := b.replCommandIncr + 1 }.put b.replPos tid r := by
    rw [feedRecord]
    exact congrArg _ made.symm
  rw [fed]
  refine ⟨{ bytes with
    repl := Function.update bytes.repl b.replPos (Function.update (bytes.repl b.replPos) tid
      (Bytes.filled (recordsBytes (b.repl b.replPos tid ++ [r])) 0))
    replCommandIncr := bytes.replCommandIncr + 1 }, ?_, ?_⟩
  · rw [backlogFeed, stores.replPos, buffer, number]
    obtain ⟨localRepl, long, packet⟩ := Option.bind_eq_some_iff.mp written
    simp only [Option.bind_eq_bind, long, packet, Option.bind_some]
  · exact {
      replPos := stores.replPos
      repl := Stores.put_slots bytes b tid r _ (fun records buffer => buffer = Bytes.filled (recordsBytes records) 0)
        rfl stores.repl
      short := Stores.put_slots bytes b tid r Bytes.cleared (fun records _ => (recordsBytes records).length < 2 ^ 31)
        length stores.short
      numbered := by
        refine Stores.put_slots bytes b tid r Bytes.cleared (fun records _ => ∀ r ∈ records, r.id < 2 ^ 64)
          ?_ stores.numbered
        intro other member
        rcases List.mem_append.mp member with before | last
        · exact stores.numbered _ _ other before
        · obtain rfl := List.mem_singleton.mp last
          exact bound
      incr := by
        rw [stores.incr]
        exact (UInt64.ofNat_add b.replCommandIncr 1).symm
      backLog := stores.backLog
      aof := stores.aof
      offset := stores.offset
      flushOffset := stores.flushOffset }

/-- Where the cursor of a buffer stands: behind the number of the first record that is
left, or at the end. -/
def Stands (buf : List UInt8) (p : Nat) (rest : List Record) : Prop :=
  ∃ front, buf = front ++ recordsBytes rest ∧ p = front.length + if rest = [] then 0 else 8

/-- The number of the first record that is left. -/
theorem readAt_number (front : List UInt8) (r : Record) (more : List Record) (numbered : r.id < 2 ^ 64)
    (short : (front ++ recordsBytes (r :: more)).length < 2 ^ 31) :
    (Bytes.filled (front ++ recordsBytes (r :: more)) 0).readAt 8 (UInt32.ofNat front.length) = r.id := by
  have length : (front ++ recordsBytes (r :: more)).length =
      front.length + (8 + r.pack.size + (recordsBytes more).length) := by
    rw [List.length_append, recordsBytes_cons, List.length_append, r.bytes_length]
  have bound : r.id < 256 ^ 8 := numbered
  rw [Bytes.readAt_filled _ 0 8 front.length (by omega) (by omega), List.drop_left, recordsBytes_cons, Record.bytes,
    List.append_assoc, List.take_left' (leBytes_length 8 r.id), leNat_leBytes, Nat.mod_eq_of_lt bound]

namespace Stands

variable {buf : List UInt8} {p : Nat} {entry : Record} {more : List Record}

/-- Behind the cursor lie the packet and the other records. -/
theorem drop (stands : Stands buf p (entry :: more)) :
    p + entry.pack.size + (recordsBytes more).length = buf.length ∧
      buf.drop p = entry.pack.serialize ++ recordsBytes more := by
  obtain ⟨front, rfl, rfl⟩ := stands
  rw [if_neg (List.cons_ne_nil entry more), recordsBytes_cons, Record.bytes]
  have before : (front ++ leBytes 8 entry.id).length = front.length + 8 := by
    rw [List.length_append, leBytes_length]
  have split : front ++ (leBytes 8 entry.id ++ entry.pack.serialize ++ recordsBytes more) =
      front ++ leBytes 8 entry.id ++ (entry.pack.serialize ++ recordsBytes more) := by
    simp only [List.append_assoc]
  rw [split]
  refine ⟨?_, List.drop_left' before⟩
  rw [List.length_append, before, List.length_append, Pack.serialize_length, Nat.add_assoc]

/-- The length word there is the packet's. -/
theorem size (stands : Stands buf p (entry :: more)) (short : buf.length < 2 ^ 31) :
    (Bytes.filled buf 0).readAt 4 (UInt32.ofNat p) = entry.pack.size := by
  obtain ⟨length, behind⟩ := stands.drop
  have head := entry.pack.head_le_size
  have word : 4 ≤ entry.pack.serialize.length := by
    rw [Pack.serialize_length]
    omega
  rw [Bytes.readAt_filled buf 0 4 p (by omega) (by omega), behind, List.take_append_of_le_length word]
  exact entry.pack.serialize_fields.1

/-- As many bytes are the packet. -/
theorem take (stands : Stands buf p (entry :: more)) :
    (buf.drop p).take entry.pack.size = entry.pack.serialize := by
  rw [stands.drop.2]
  exact List.take_left' entry.pack.serialize_length

/-- The cursor behind the last packet of the buffer. -/
theorem ends (stands : Stands buf p [entry]) :
    Stands buf (p + entry.pack.size) [] ∧ p + entry.pack.size = buf.length := by
  obtain ⟨length, _⟩ := stands.drop
  exact ⟨⟨buf, (List.append_nil buf).symm, length⟩, length⟩

/-- Behind another one it reads the next number. A record has eight bytes for its number and
then the packet, so the next begins where this one ends. -/
theorem next {following : Record} (stands : Stands buf p (entry :: following :: more)) (short : buf.length < 2 ^ 31)
    (numbered : following.id < 2 ^ 64) :
    p + entry.pack.size < buf.length ∧
      (Bytes.filled buf 0).readAt 8 (UInt32.ofNat (p + entry.pack.size)) = following.id ∧
      Stands buf (p + entry.pack.size + 8) (following :: more) := by
  obtain ⟨length, behind⟩ := stands.drop
  obtain ⟨front, rfl, rfl⟩ := stands
  rw [if_neg (List.cons_ne_nil _ _)] at length ⊢
  have before : (front ++ entry.bytes).length = front.length + 8 + entry.pack.size := by
    rw [List.length_append, entry.bytes_length, Nat.add_assoc]
  have split : front ++ recordsBytes (entry :: following :: more) =
      front ++ entry.bytes ++ recordsBytes (following :: more) := by
    rw [recordsBytes_cons, List.append_assoc]
  have header : 8 ≤ (recordsBytes (following :: more)).length := by
    rw [recordsBytes_cons, List.length_append, following.bytes_length]
    omega
  rw [← before] at length ⊢
  refine ⟨by omega, ?_, front ++ entry.bytes, split, by rw [if_neg (List.cons_ne_nil _ _)]⟩
  rw [split] at short ⊢
  exact readAt_number _ following more numbered short

end Stands

/-- Two feeds one after the other are one. -/
theorem feedBytes_feedBytes (first second : List UInt8) (sent : List UInt8 × Int64) :
    feedBytes second (feedBytes first sent) = feedBytes (first ++ second) sent := by
  simp only [feedBytes, List.append_assoc, List.length_append, Int64.ofNat_add, Int64.add_assoc]

/-- One round: the packet of the least number is fed, and the cursor of its buffer moves to the
next record. The number of the next record is read from behind the packet, unless the buffer
ends there. -/
theorem mergeBytes_round (sorting : Sorting m) (data : Fin m → Bytes) (rounds : Nat) (p : Fin m → Nat)
    (sent : List UInt8 × Int64) {idList others : List (Head m)} {slot : Fin m} {buf : List UInt8} {entry : Record}
    {more : List Record} (stored : data slot = Bytes.filled buf 0) (short : buf.length < 2 ^ 31)
    (result : sorting.sort idList = ⟨slot, entry.id⟩ :: others) (numbered : ∀ r ∈ more, r.id < 2 ^ 64)
    (stands : Stands buf (p slot) (entry :: more)) :
    ∃ pos, Stands buf pos more ∧ mergeBytes sorting data (rounds + 1) p idList sent =
      mergeBytes sorting data rounds (Function.update p slot pos) (others ++ (headOf Record.id slot more).toList)
        (feedBytes entry.pack.serialize sent) := by
  obtain ⟨length, _⟩ := stands.drop
  have inside : ¬ buf.length < p slot + entry.pack.size := by omega
  have size : (Bytes.filled buf 0).size.toNat = buf.length := word_toNat _ (Nat.lt_trans short (by decide))
  have contents : (Bytes.filled buf 0).buf = buf := rfl
  rw [mergeBytes, result]
  simp only [stored, stands.size short, contents, inside, ↓reduceIte, stands.take, size]
  cases more with
  | nil =>
    obtain ⟨ended, last⟩ := stands.ends
    have done : ¬ p slot + entry.pack.size < buf.length := by omega
    rw [if_neg done, headOf, List.head?_nil, Option.map_none, Option.toList_none, List.append_nil]
    exact ⟨_, ended, rfl⟩
  | cons following more =>
    obtain ⟨further, number, there⟩ := stands.next short (numbered following List.mem_cons_self)
    rw [if_pos further, number]
    exact ⟨_, there, rfl⟩

/-- Without heads the loop is done. -/
theorem mergeBytes_done (sorting : Sorting m) (data : Fin m → Bytes) (rounds : Nat) (p : Fin m → Nat)
    (sent : List UInt8 × Int64) : mergeBytes sorting data (rounds + 1) p [] sent = some sent := by
  have sorted : sorting.sort [] = [] := (sorting.perm []).eq_nil
  rw [mergeBytes, sorted]

/-- Nothing is fed without bytes. -/
theorem feedBytes_nil (sent : List UInt8 × Int64) : feedBytes [] sent = sent := by
  have zero : Int64.ofNat 0 = 0 := rfl
  rw [feedBytes, List.append_nil, List.length_nil, zero, Int64.add_zero]

/-- The loop on buffers with records takes the packets that the merge of the records takes,
when it may go on for more rounds than there are records. By induction on the rounds: each
takes what a round of the merge takes. -/
theorem mergeBytes_spec (sorting : Sorting m) (data : Fin m → Bytes) (bufs : Fin m → List UInt8)
    (stored : ∀ slot, data slot = Bytes.filled (bufs slot) 0) (short : ∀ slot, (bufs slot).length < 2 ^ 31)
    (rounds : Nat) (p : Fin m → Nat) (rest : Fin m → List Record) (idList : List (Head m)) (sent : List UInt8 × Int64)
    (numbered : ∀ slot, ∀ r ∈ rest slot, r.id < 2 ^ 64) (stands : ∀ slot, Stands (bufs slot) (p slot) (rest slot))
    (current : idList.Perm (headsOf Record.id rest)) (enough : (entriesOf rest).length < rounds) :
    mergeBytes sorting data rounds p idList sent = some (feedBytes (Pack.encodeAll
      ((mergeLoop sorting Record.id (entriesOf rest).length rest idList).map Record.pack)) sent) := by
  induction rounds generalizing p rest idList sent with
  | zero => exact absurd enough (Nat.not_lt_zero _)
  | succ rounds ih =>
    by_cases none : entriesOf rest = []
    · rw [headsOf_nil none] at current
      rw [current.eq_nil, mergeBytes_done, none]
      exact congrArg some (feedBytes_nil sent).symm
    · obtain ⟨slot, entry, more, others, result, first, _, current', round⟩ :=
        mergeLoop_round sorting Record.id ((entriesOf rest).length - 1) rest idList current none
      have taken := (entriesOf_take rest slot entry more first).length_eq
      rw [List.length_cons] at taken
      have left : (entriesOf rest).length - 1 = (entriesOf (Function.update rest slot more)).length := by omega
      have count : (entriesOf rest).length - 1 + 1 = (entriesOf rest).length := by omega
      have later : ∀ r ∈ more, r.id < 2 ^ 64 := fun r member =>
        numbered slot r (first ▸ List.mem_cons_of_mem entry member)
      have numbered' : ∀ other, ∀ r ∈ Function.update rest slot more other, r.id < 2 ^ 64 :=
        (Function.forall_update_iff rest fun _ records => ∀ r ∈ records, r.id < 2 ^ 64).mpr
          ⟨later, fun other _ => numbered other⟩
      obtain ⟨pos, there, taking⟩ := mergeBytes_round sorting data rounds p sent (stored slot) (short slot) result later
        (first ▸ stands slot)
      have stands' : ∀ other,
          Stands (bufs other) (Function.update p slot pos other) (Function.update rest slot more other) := by
        refine (Function.forall_update_iff rest fun other records =>
          Stands (bufs other) (Function.update p slot pos other) records).mpr ⟨?_, fun other elsewhere => ?_⟩
        · rw [Function.update_self]
          exact there
        · rw [Function.update_of_ne elsewhere]
          exact stands other
      rw [count, left] at round
      rw [round, List.map_cons, Pack.encodeAll_cons, ← feedBytes_feedBytes, taking]
      exact ih _ _ _ _ numbered' stands' current' (by omega)

/-- The rounds that the loop may take are enough. Every record has at least one byte. -/
theorem lt_rounds (data : Fin m → Bytes) (rest : Fin m → List Record)
    (stored : ∀ slot, data slot = Bytes.filled (recordsBytes (rest slot)) 0) :
    (entriesOf rest).length < rounds data := by
  have below : ∀ slots : List (Fin m),
      (slots.flatMap rest).length ≤ (slots.map fun slot => (data slot).buf.length).sum := by
    intro slots
    induction slots with
    | nil => exact Nat.le_refl 0
    | cons slot slots ih =>
      have here := length_le_recordsBytes (rest slot)
      have buf : (data slot).buf.length = (recordsBytes (rest slot)).length := by
        rw [stored slot]
        rfl
      rw [List.flatMap_cons, List.length_append, List.map_cons, List.sum_cons, buf]
      exact Nat.add_le_add here ih
  exact Nat.lt_succ_of_le (below (List.finRange m))

/-- The loop from the first numbers on: it takes the merge of the records. The induction is on
the rounds: the heads of the buffers are the heads of the lists. -/
theorem mergeBytes_records (sorting : Sorting m) (data : Fin m → Bytes) (rest : Fin m → List Record)
    (sent : List UInt8 × Int64) (stored : ∀ slot, data slot = Bytes.filled (recordsBytes (rest slot)) 0)
    (short : ∀ slot, (recordsBytes (rest slot)).length < 2 ^ 31) (numbered : ∀ slot, ∀ r ∈ rest slot, r.id < 2 ^ 64) :
    mergeBytes sorting data (rounds data) (fun j => if 0 < (data j).size.toNat then 8 else 0)
      ((List.finRange m).filterMap fun j => if 0 < (data j).size.toNat then some ⟨j, (data j).readAt 8 0⟩ else none)
      sent = some (feedBytes (Pack.encodeAll ((kWayMerge sorting Record.id rest).map Record.pack)) sent) := by
  have size : ∀ slot, (data slot).size.toNat = (recordsBytes (rest slot)).length := by
    intro slot
    rw [stored slot]
    exact word_toNat _ (Nat.lt_trans (short slot) (by decide))
  have some_iff : ∀ slot, 0 < (recordsBytes (rest slot)).length ↔ rest slot ≠ [] := by
    intro slot
    have few := length_le_recordsBytes (rest slot)
    constructor
    · rintro positive none
      rw [none] at positive
      exact absurd positive (Nat.lt_irrefl 0)
    · exact fun nonempty => Nat.lt_of_lt_of_le (List.length_pos_of_ne_nil nonempty) few
  have heads : (List.finRange m).filterMap (fun j => if 0 < (data j).size.toNat then
      some ⟨j, (data j).readAt 8 0⟩ else none) = headsOf Record.id rest := by
    refine List.filterMap_congr fun slot _ => ?_
    rw [size]
    cases entries : rest slot with
    | nil => exact if_neg (Nat.lt_irrefl 0)
    | cons first more =>
      have positive := (some_iff slot).mpr (by rw [entries]; exact List.cons_ne_nil first more)
      have bound := short slot
      rw [entries] at positive bound
      rw [if_pos positive, stored slot, entries]
      have number := readAt_number [] first more (numbered slot first (entries ▸ List.mem_cons_self)) bound
      exact congrArg (fun key => some (⟨slot, key⟩ : Head m)) number
  rw [heads]
  refine mergeBytes_spec sorting data _ stored short _ _ rest _ sent numbered (fun slot => ⟨[], rfl, ?_⟩)
    (List.Perm.refl _) (lt_rounds data rest stored)
  simp only [size, some_iff, List.length_nil, Nat.zero_add, ite_not]

/-- The flush empties `back_log_`, also when there is nothing in it. -/
theorem backlogFlush_eq (b : ByteBacklog m) : b.backlogFlush = { b with
    aof := b.aof ++ b.backLog
    masterFlushReplOffset := b.masterFlushReplOffset + Int64.ofNat b.backLog.length
    backLog := [] } := by
  rw [backlogFlush]
  split
  · rename_i empty
    have zero : Int64.ofNat 0 = 0 := rfl
    rw [empty, List.append_nil, List.length_nil, zero, Int64.add_zero, ← empty]
  · rfl

/-- The sets after the swap. -/
theorem Stores.swap {bytes : ByteBacklog m} {b : Backlog m} (stores : Stores bytes b) (set : Bool) (slot : Fin m) :
    bytes.swap.repl set slot = Bytes.filled (recordsBytes (b.swap.repl set slot)) 0 ∧
      (recordsBytes (b.swap.repl set slot)).length < 2 ^ 31 ∧ ∀ r ∈ b.swap.repl set slot, r.id < 2 ^ 64 := by
  rw [ByteBacklog.swap, Backlog.swap, stores.replPos]
  dsimp only
  by_cases other : set = !b.replPos
  · rw [other, Function.update_self, Function.update_self]
    exact ⟨rfl, (by decide : (0 : Nat) < 2 ^ 31), fun r member => absurd member List.not_mem_nil⟩
  · rw [Function.update_of_ne other, Function.update_of_ne other]
    exact ⟨stores.repl set slot, stores.short set slot, stores.numbered set slot⟩

/-- Merging the buffers does what merging the records does. The buffers swap as the lists do,
and what is fed to the slaves are the packets of the merged records. -/
theorem Stores.merge {bytes : ByteBacklog m} {b : Backlog m} (stores : Stores bytes b) (sorting : Sorting m)
    (flushed : b.backLog = []) :
    ∃ bytes', bytes.mergeBacklogFeedSlaves sorting = some bytes' ∧
      Stores bytes' (b.mergeBacklogFeedSlaves sorting).1 := by
  obtain ⟨merged, same, result, _⟩ := b.merge_spec sorting flushed
  have aof := b.merge_aof sorting flushed
  rw [← same] at aof
  have kept : bytes.swap.repl bytes.replPos = bytes.repl bytes.replPos :=
    Function.update_of_ne (Bool.not_ne_self bytes.replPos).symm _ _
  have empty : bytes.swap.backLog = [] := stores.backLog
  have stored : ∀ slot, bytes.repl bytes.replPos slot = Bytes.filled (recordsBytes (b.repl b.replPos slot)) 0 := by
    rw [stores.replPos]
    exact stores.repl b.replPos
  have loop := mergeBytes_records sorting (bytes.repl bytes.replPos) (b.repl b.replPos)
    ([], bytes.swap.masterReplOffset) stored (stores.short b.replPos) (stores.numbered b.replPos)
  rw [← same] at loop
  refine ⟨{ bytes.swap with
    backLog := []
    aof := bytes.aof ++ Pack.encodeAll merged
    masterReplOffset := bytes.masterReplOffset + Int64.ofNat (Pack.encodeAll merged).length
    masterFlushReplOffset := bytes.masterFlushReplOffset + Int64.ofNat (Pack.encodeAll merged).length }, ?_, ?_⟩
  · rw [mergeBacklogFeedSlaves]
    simp only [kept, empty, loop, Option.bind_eq_bind, Option.bind_some, backlogFlush_eq, feedBytes, List.nil_append]
    rfl
  · have counted : Int64.ofNat (bytes.aof ++ Pack.encodeAll merged).length =
        Int64.ofNat bytes.aof.length + Int64.ofNat (Pack.encodeAll merged).length := by
      rw [List.length_append, Int64.ofNat_add]
    exact {
      replPos := by
        rw [result]
        exact congrArg Bool.not stores.replPos
      repl := fun set slot => by
        rw [result]
        exact (stores.swap set slot).1
      short := fun set slot => by
        rw [result]
        exact (stores.swap set slot).2.1
      numbered := fun set slot => by
        rw [result]
        exact (stores.swap set slot).2.2
      incr := by
        rw [result]
        exact stores.incr
      backLog := rfl
      aof := by rw [aof, Pack.encodeAll_append, ← stores.aof]
      offset := by rw [counted, ← stores.offset]
      flushOffset := by rw [counted, ← stores.flushOffset] }

/-- The merge of the records leaves the running number. -/
theorem merge_incr (sorting : Sorting m) (b : Backlog m) (flushed : b.backLog = []) :
    (b.mergeBacklogFeedSlaves sorting).1.replCommandIncr = b.replCommandIncr := by
  obtain ⟨_, _, result, _⟩ := b.merge_spec sorting flushed
  rw [result]
  rfl

/-- What is fed and not merged waits behind the AOF. -/
theorem merge_waiting {b : Backlog m} {pending : List Pack} (waiting : b.Waiting pending) (sorting : Sorting m) :
    (b.mergeBacklogFeedSlaves sorting).1.aof = b.aof ++ pending := by
  rw [b.merge_aof sorting waiting.flushed, waiting.unmerged sorting]

/-- Every run goes through and leaves records in the buffers. As long as the numbers last
these wait for the next merge, in feed order. By induction on the events. -/
theorem run_stores {proto : Protobuf M} (sorting : Sorting m) {bytes : ByteBacklog m} {b : Backlog m}
    (stores : Stores bytes b) (flushed : b.backLog = []) (events : List (FeedEvent m M))
    (along : Along (step proto sorting) (Fits proto) bytes events) :
    ∃ bytes' b', run (step proto sorting) bytes events = some bytes' ∧ Stores bytes' b' ∧
      ∀ pending, b.Waiting pending → b.replCommandIncr + fedCount events ≤ 2 ^ 64 → ∃ pending', b'.Waiting pending' ∧
        Pack.encodeAll (b'.aof ++ pending') = Pack.encodeAll (b.aof ++ pending) ++ fedBytes proto events := by
  induction events generalizing bytes b with
  | nil => exact ⟨bytes, b, rfl, stores, fun pending waiting _ => ⟨pending, waiting, (List.append_nil _).symm⟩⟩
  | cons event events ih =>
    obtain ⟨fits, later⟩ := along
    cases event with
    | feed tid call =>
      obtain ⟨p, feeds, room⟩ := fits
      obtain ⟨middle, fed, stored⟩ := stores.feed feeds room
      obtain ⟨bytes', b', ran, stores', rest⟩ := ih stored flushed (later middle fed)
      refine ⟨bytes', b', Option.bind_eq_some_iff.mpr ⟨middle, fed, ran⟩, stores', fun pending waiting numbers => ?_⟩
      have count : fedCount (.feed tid call :: events) = fedCount events + 1 := List.countP_cons_of_pos rfl
      rw [count] at numbers
      have same := feedRecord_eq b tid p (by omega)
      have incr : (feedRecord b tid p).replCommandIncr = b.replCommandIncr + 1 := rfl
      obtain ⟨pending', waiting', equal⟩ := rest (pending ++ [p]) (same ▸ waiting.feed tid p) (by rw [incr]; omega)
      refine ⟨pending', waiting', equal.trans ?_⟩
      have aof : (feedRecord b tid p).aof = b.aof := rfl
      have bytes : fedBytes proto (.feed tid call :: events) = p.serialize ++ fedBytes proto events := by
        rw [← feeds.bytes]
        rfl
      rw [aof, bytes, ← List.append_assoc, Pack.encodeAll_append _ [p], Pack.encodeAll_cons, Pack.encodeAll_nil,
        List.append_nil, List.append_assoc]
    | merge =>
      obtain ⟨middle, merged, stored⟩ := stores.merge sorting flushed
      obtain ⟨bytes', b', ran, stores', rest⟩ := ih stored (b.merge_empties sorting flushed).1 (later middle merged)
      refine ⟨bytes', b', Option.bind_eq_some_iff.mpr ⟨middle, merged, ran⟩, stores', fun pending waiting numbers => ?_⟩
      obtain ⟨pending', waiting', equal⟩ := rest [] (waiting.merge sorting).1
        (by rw [merge_incr sorting b flushed]; exact numbers)
      refine ⟨pending', waiting', equal.trans ?_⟩
      rw [merge_waiting waiting sorting, List.append_nil]
      rfl

/-- The bytes in the AOF, and the packets of the current buffers in the order of their
numbers, are what has been fed. -/
def InOrder (proto : Protobuf M) (events : List (FeedEvent m M)) (bytes : ByteBacklog m) : Prop :=
  ∃ (records : Fin m → List Record) (unmerged : List Record),
    (∀ slot, (bytes.repl bytes.replPos slot).buf = recordsBytes (records slot)) ∧
    (∀ slot, ∀ r ∈ records slot, r.id < 2 ^ 64) ∧
    unmerged.Perm (entriesOf records) ∧ (unmerged.Pairwise fun l r => l.id < r.id) ∧
    bytes.aof ++ Pack.encodeAll (unmerged.map Record.pack) = fedBytes proto events

/-- Both counts are the number of bytes in the AOF. -/
def Counts (bytes : ByteBacklog m) : Prop :=
  bytes.masterReplOffset.toInt = bytes.aof.length ∧ bytes.masterFlushReplOffset.toInt = bytes.aof.length

/-- Records that wait are in order behind the AOF. They are those of the sequence that was dealt
to the slots, and this is increasing. -/
theorem Stores.inOrder {proto : Protobuf M} {events : List (FeedEvent m M)} {bytes : ByteBacklog m} {b : Backlog m}
    {pending : List Pack} (stores : Stores bytes b) (waiting : b.Waiting pending)
    (fed : Pack.encodeAll (b.aof ++ pending) = fedBytes proto events) : InOrder proto events bytes := by
  obtain ⟨sequence, slots, increasing, _, packs⟩ := waiting.dealt
  refine ⟨b.repl b.replPos, sequence.map Prod.snd, fun slot => ?_, stores.numbered b.replPos, ?_,
    List.pairwise_map.mpr increasing, ?_⟩
  · rw [stores.replPos, stores.repl]
    rfl
  · rw [slots]
    exact (entriesOf_deal sequence).symm
  · have same : (sequence.map Prod.snd).map Record.pack = pending := by
      rw [List.map_map]
      exact packs
    rw [same, stores.aof, ← Pack.encodeAll_append, fed]

/-- The counts are right as long as they last. -/
theorem Stores.counts {bytes : ByteBacklog m} {b : Backlog m} (stores : Stores bytes b)
    (lasts : bytes.aof.length < 2 ^ 63) : Counts bytes := by
  have value := Int64.toInt_ofNat_of_lt lasts
  exact ⟨by rw [stores.offset, value], by rw [stores.flushOffset, value]⟩

/-- Every run of feeds and merges goes through: the loop of every merge ends. As long as the
numbers last, AOF and buffers together have what has been fed, in feed order; and as long as
fewer than 2^63 bytes are in the AOF, both counts are their number.

Proof: the bytes in the buffers store lists of records, each record a number and a packet. A
feed appends one record, and the rounds of a merge take the record with the least number from
the heads of the buffers, with less to read after each round. So the merge of bytes is the
merge of lists, of which the order is known. -/
theorem run_inOrder (proto : Protobuf M) (sorting : Sorting m) (events : List (FeedEvent m M))
    (along : Along (step proto sorting) (Fits proto) initializer events) :
    ∃ bytes, run (step proto sorting) initializer events = some bytes ∧
      (fedCount events ≤ 2 ^ 64 → InOrder proto events bytes) ∧ (bytes.aof.length < 2 ^ 63 → Counts bytes) := by
  obtain ⟨bytes, b, ran, stores, waits⟩ := run_stores sorting Stores.initializer rfl events along
  refine ⟨bytes, ran, fun numbers => ?_, stores.counts⟩
  have start : (Backlog.initializer 1 [] : Backlog m).replCommandIncr = 0 := rfl
  obtain ⟨pending, waiting, fed⟩ := waits [] (Backlog.Waiting.initializer 1 [])
    (by rw [start, Nat.zero_add]; exact numbers)
  exact stores.inOrder waiting fed

/-- Two workers, all three overloads, and two merges. -/
def someEvents : List (FeedEvent 2 (List UInt8)) :=
  [.feed (Fin.last 1) (.raw [3] 7), .feed (Fin.last 0).castSucc (.message [1, 2] 8),
    .feed (Fin.last 1) (.packed (Bytes.filled [8, 0, 0, 0, 0, 0, 9, 0] 0)), .merge,
    .feed (Fin.last 0).castSucc (.raw [] 5), .merge]

/-- Its calls fit. -/
theorem someEvents_fit : Along (step Pack.raw (Sorting.insertion 2)) (Fits Pack.raw) initializer someEvents := by
  refine ⟨⟨⟨0, 7, [3], by decide⟩, ⟨rfl, rfl, rfl⟩, by decide⟩, fun s' stepped => ?_⟩
  obtain rfl := Option.some.inj stepped
  refine ⟨⟨⟨0, 8, [1, 2], by decide⟩, ⟨rfl, rfl, rfl⟩, by decide⟩, fun s' stepped => ?_⟩
  obtain rfl := Option.some.inj stepped
  refine ⟨⟨⟨0, 9, [], by decide⟩, (by decide : _ = _), by decide⟩, fun s' stepped => ?_⟩
  obtain rfl := Option.some.inj stepped
  refine ⟨trivial, fun s' stepped => ?_⟩
  obtain rfl := Option.some.inj stepped
  refine ⟨⟨⟨0, 5, [], by decide⟩, ⟨rfl, rfl, rfl⟩, by decide⟩, fun s' stepped => ?_⟩
  exact ⟨trivial, fun _ _ => trivial⟩

/-- The theorem of the runs at these events: the bytes merged are the packets in the order of
their numbers. -/
theorem run_inOrder_some : ∃ bytes, run (step Pack.raw (Sorting.insertion 2)) initializer someEvents = some bytes ∧
    (fedCount someEvents ≤ 2 ^ 64 → InOrder Pack.raw someEvents bytes) ∧ (bytes.aof.length < 2 ^ 63 → Counts bytes) :=
  run_inOrder Pack.raw (Sorting.insertion 2) someEvents someEvents_fit

/-- Empty packets, each followed by a merge. -/
def drip (tid : Fin m) : Nat → List (FeedEvent m (List UInt8))
  | 0 => []
  | n + 1 => .feed tid (.raw [] 5) :: .merge :: drip tid n

/-- Each adds eight bytes to the AOF. By induction on the number of merges: each flushes a
packet without a body. -/
theorem drip_counts (sorting : Sorting m) (tid : Fin m) (n : Nat) {bytes : ByteBacklog m} {b : Backlog m}
    (stores : Stores bytes b) (waiting : b.Waiting []) (numbers : b.replCommandIncr + n ≤ 2 ^ 64) :
    Along (step Pack.raw sorting) (Fits Pack.raw) bytes (drip tid n) ∧
      ∀ last, run (step Pack.raw sorting) bytes (drip tid n) = some last →
        last.aof.length = bytes.aof.length + 8 * n ∧ last.masterReplOffset = Int64.ofNat last.aof.length := by
  induction n generalizing bytes b with
  | zero =>
    refine ⟨trivial, fun last ran => ?_⟩
    obtain rfl := Option.some.inj ran
    exact ⟨rfl, stores.offset⟩
  | succ n ih =>
    obtain ⟨p, made⟩ : ∃ p : Pack, p = ⟨0, 5, [], by decide⟩ := ⟨_, rfl⟩
    have feeds : (FeedCall.raw [] 5 : FeedCall (List UInt8)).Feeds Pack.raw p := by
      rw [made]
      exact ⟨rfl, rfl, rfl⟩
    have size : p.size = 8 := by rw [made]; rfl
    have empty : (bytes.repl bytes.replPos tid).buf = [] := by
      rw [stores.replPos, stores.repl, waiting.empty_iff.mp rfl tid]
      rfl
    have room : (bytes.repl bytes.replPos tid).buf.length + (8 + p.size) < 2 ^ 31 := by
      rw [empty, size]
      decide
    obtain ⟨middle, fed, stored⟩ := stores.feed feeds room
    rw [feedRecord_eq b tid p (by omega)] at stored
    have waits := waiting.feed tid p
    obtain ⟨bytes', merged, stores'⟩ := stored.merge sorting waits.flushed
    have incr : ((b.backlogFeed tid p).mergeBacklogFeedSlaves sorting).1.replCommandIncr = b.replCommandIncr + 1 :=
      merge_incr sorting _ waits.flushed
    obtain ⟨along, grows⟩ := ih stores' (waits.merge sorting).1 (by rw [incr]; omega)
    have length : bytes'.aof.length = bytes.aof.length + 8 := by
      have before : (b.backlogFeed tid p).aof = b.aof := rfl
      rw [stores'.aof, merge_waiting waits sorting, before, stores.aof, Pack.encodeAll_append, List.length_append]
      rw [List.nil_append, Pack.encodeAll_cons, Pack.encodeAll_nil, List.append_nil, Pack.serialize_length, size]
    refine ⟨⟨⟨p, feeds, room⟩, fun s stepped => ⟨trivial, fun s' stepped' => ?_⟩⟩, fun last ran => ?_⟩
    · obtain rfl := Option.some.inj (fed.symm.trans stepped)
      obtain rfl := Option.some.inj (merged.symm.trans stepped')
      exact along
    · obtain ⟨s, stepped, ran⟩ := Option.bind_eq_some_iff.mp ran
      obtain rfl := Option.some.inj (fed.symm.trans stepped)
      obtain ⟨s', stepped', ran⟩ := Option.bind_eq_some_iff.mp ran
      obtain rfl := Option.some.inj (merged.symm.trans stepped')
      obtain ⟨total, offset⟩ := grows last ran
      exact ⟨by rw [total, length]; omega, offset⟩

/-- The last event is a merge. -/
theorem drip_last (tid : Fin m) (n : Nat) : (drip tid (n + 1)).getLast? = some .merge := by
  induction n with
  | zero => rfl
  | succ n ih => exact ih

/-- After 2^63 bytes the counts have wrapped: they are not always the number of bytes. As many
packets without a body as that takes are fed and merged one by one. -/
theorem run_miscounts : ¬ ∀ events : List (FeedEvent 2 (List UInt8)),
    Along (step Pack.raw (Sorting.insertion 2)) (Fits Pack.raw) initializer events →
      ∃ bytes, run (step Pack.raw (Sorting.insertion 2)) initializer events = some bytes ∧
        InOrder Pack.raw events bytes ∧ (events.getLast? = some .merge → Counts bytes) := by
  intro claim
  obtain ⟨n, many⟩ : ∃ n, n + 1 = 2 ^ 60 := ⟨2 ^ 60 - 1, rfl⟩
  have start : (Backlog.initializer 1 [] : Backlog 2).replCommandIncr = 0 := rfl
  obtain ⟨along, grows⟩ := drip_counts (Sorting.insertion 2) (Fin.last 1) (n + 1) Stores.initializer
    (Backlog.Waiting.initializer 1 []) (by rw [start, many]; decide)
  obtain ⟨bytes, ran, _, counts⟩ := claim _ along
  obtain ⟨total, offset⟩ := grows bytes ran
  have length : bytes.aof.length = 2 ^ 63 := by
    rw [total, many]
    rfl
  have counted := (counts (drip_last _ n)).1
  rw [offset, length] at counted
  exact absurd counted (by decide)

end ByteBacklog

end Naruto.Replication
