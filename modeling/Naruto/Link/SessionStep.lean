import Naruto.Link.Session

/-!
# What the callbacks of a link do

`recv` returns the next packet of the peer or finds the connection broken; `sendMsg`
queues the bytes of its message behind those that wait; `send` takes all of them or
breaks the connection. So a callback serves a packet, sends what is queued, or gives the
descriptor back, and a link whose descriptor is gone keeps its error, which stops every
further call before it reaches a descriptor.
-/

namespace Naruto.Link

open Naruto.Theory Naruto.Utils Naruto.Database Naruto.Command Naruto.Replication

/-! ### The calls on a connection -/

/-- A packet is what its bytes are read as. -/
theorem packOf_serialize (p : Pack) : packOf p.serialize = some p := by
  obtain ⟨length, flag, type, body⟩ := p.serialize_fields
  have size := p.serialize_length
  rw [packOf, dif_pos (by rw [body]; exact p.fits), if_pos ⟨size ▸ p.head_le_size, length.trans size.symm⟩]
  simp only [flag, type, body, UInt16.ofNat_toNat]

/-- Bytes whose length word counts them are those of a packet. The word is the size that the
bytes behind it give, and the half words are read back as they are. -/
theorem packOf_some {buf : List UInt8} (header : 8 ≤ buf.length) (fits : buf.length < 2 ^ 32)
    (whole : leNat (buf.take 4) = buf.length) : ∃ p : Pack, p.serialize = buf := by
  have short : ∀ index : Nat, index + 2 ≤ 8 → ((buf.drop index).take 2).length = 2 := by
    intro index inside
    rw [List.length_take, List.length_drop]
    omega
  have word : ∀ bytes : List UInt8, bytes.length = 2 →
      leBytes 2 (UInt16.ofNat (leNat bytes)).toNat = bytes := fun bytes width =>
    ((short_eq_iff bytes _ width).mp rfl).symm
  have four : leBytes 4 (8 + (buf.drop 8).length) = buf.take 4 := by
    refine leNat_injective _ _ ?_ ?_
    · rw [leBytes_length, List.length_take]
      omega
    · rw [leNat_leBytes, whole, List.length_drop, Nat.mod_eq_of_lt (by omega)]
      omega
  refine ⟨⟨UInt16.ofNat (leNat ((buf.drop 4).take 2)), UInt16.ofNat (leNat ((buf.drop 6).take 2)), buf.drop 8,
    by rw [List.length_drop]; omega⟩, ?_⟩
  simp only [Pack.serialize, Pack.head, Pack.size, four, word _ (short 4 (by omega)), word _ (short 6 (by omega))]
  have taken := take_eight buf
  rw [← taken, List.take_append_drop]

/-- What `read_` returns is the next packet of the stream. The induction is on the results;
the buffer holds what has come. -/
theorem readLoop_packet (buf : List UInt8) (nextLen : Nat) (stream : List UInt8) (results : List Nat)
    (fits : buf.length < 2 ^ 32) (pack : Bytes) (results' : List Nat) (stream' : List UInt8)
    (returned : Connection.readLoop (Bytes.filled buf 0) nextLen stream results = .returned pack results' stream') :
    ∃ p : Pack, pack = Bytes.filled p.serialize 0 ∧ buf ++ stream = p.serialize ++ stream' := by
  induction results generalizing buf nextLen stream with
  | nil => cases returned
  | cons readn results ih =>
    rw [Connection.readLoop] at returned
    split at returned
    · cases returned
    · by_cases room : buf.length + (stream.take readn).length < 2 ^ 32
      · rw [Bytes.putBytes_filled _ _ _ room] at returned
        have grown : (buf ++ stream.take readn).length < 2 ^ 32 := by rwa [List.length_append]
        have behind : (buf ++ stream.take readn) ++ stream.drop readn = buf ++ stream := by
          rw [List.append_assoc, List.take_append_drop]
        have stored : (Bytes.filled (buf ++ stream.take readn) 0).size.toNat = (buf ++ stream.take readn).length :=
          word_toNat _ grown
        dsimp only at returned
        rw [stored] at returned
        split at returned
        · rename_i header
          split at returned
          · rename_i shown
            obtain ⟨rfl, _, rfl⟩ := Connection.Recv.returned.inj returned
            have length : leNat ((buf ++ stream.take readn).take 4) = (buf ++ stream.take readn).length := by
              have read := Bytes.readAt_filled (buf ++ stream.take readn) 0 4 0 grown (by omega)
              rw [List.drop_zero] at read
              rw [show (0 : UInt32) = UInt32.ofNat 0 from rfl, read] at shown
              have bound : leNat ((buf ++ stream.take readn).take 4) < 2 ^ 32 := by
                have lt := leNat_lt ((buf ++ stream.take readn).take 4)
                rwa [List.length_take, Nat.min_eq_left (by omega)] at lt
              rw [← word_toNat _ bound, ← shown, stored]
            obtain ⟨p, bytes⟩ := packOf_some header grown length
            exact ⟨p, by rw [bytes], by rw [bytes, behind]⟩
          · obtain ⟨p, pack, split⟩ := ih _ _ _ grown returned
            exact ⟨p, pack, behind ▸ split⟩
        · obtain ⟨p, pack, split⟩ := ih _ _ _ grown returned
          exact ⟨p, pack, behind ▸ split⟩
      · rw [Bytes.putBytes_overflows _ _ _ fits (Nat.not_lt.mp room)] at returned
        cases returned

/-- When `send` returns the whole buffer has reached the connection. By induction on the results
of `::send`. -/
theorem sendLoop_whole (buf : List UInt8) (sendSize : Nat) (results : List Connection.SendResult)
    (wire : List UInt8) (returned : Connection.sendLoop buf sendSize (buf.length - sendSize) results = some wire) :
    wire = buf.drop sendSize := by
  induction results generalizing sendSize wire with
  | nil => cases returned
  | cons result results ih =>
    cases result with
    | interrupted => exact ih sendSize wire returned
    | wrote writed =>
      simp only [Connection.sendLoop] at returned
      split at returned
      · cases returned
      · split at returned
        · rename_i bound last
          obtain rfl := Option.some.inj returned
          rw [List.take_of_length_le]
          rw [List.length_drop]
          omega
        · obtain ⟨later, sent, rfl⟩ := Option.map_eq_some_iff.mp returned
          rw [ih _ _ sent, ← List.drop_drop, List.take_append_drop]

variable {m : Nat} {link : ClientLink m}

/-- What `recv` gives: on a connection without an error the next packet, or the beginning
of the stream is lost; with one, nothing is read. -/
theorem ClientLink.recv_cases {results : List Nat} {stream : List UInt8} {result : Option Bytes × List UInt8}
    (received : link.recv results stream = some result) :
    (∃ p : Pack, result.1 = some (Bytes.filled p.serialize 0) ∧ stream = p.serialize ++ result.2 ∧
      link.err = false) ∨
      (result.1 = none ∧ ∃ lost, result.2 = stream.drop lost) := by
  rw [ClientLink.recv] at received
  split at received
  · obtain rfl := Option.some.inj received
    exact .inr ⟨rfl, 0, rfl⟩
  · rename_i sound
    split at received
    · rename_i rbuf rest returned
      obtain rfl := Option.some.inj received
      obtain ⟨p, rfl, split⟩ := readLoop_packet [] 8 stream results (by decide) rbuf [] rest returned
      exact .inl ⟨p, rfl, split, by simpa using (not_or.mp sound).1⟩
    · obtain rfl := Option.some.inj received
      exact .inr ⟨rfl, _, rfl⟩
    · cases received

/-- When `send` returns the connection has no error, and all of the buffer was sent. Otherwise
it throws, at an error from before or one of its own. -/
theorem ClientLink.send_cases {results : List Connection.SendResult} {sent : Nat × Bool}
    (done : link.send results = some sent) :
    (sent = (link.wbuf.buf.length, true) ∧ link.err = false) ∨ sent.2 = false := by
  rw [ClientLink.send] at done
  split at done
  · obtain rfl := Option.some.inj done
    exact .inr rfl
  · rename_i sound
    split at done
    · obtain rfl := Option.some.inj done
      exact .inr rfl
    · obtain ⟨wire, returned, rfl⟩ := Option.map_eq_some_iff.mp done
      obtain rfl := sendLoop_whole link.wbuf.buf 0 results wire returned
      exact .inl ⟨rfl, by simpa using (not_or.mp sound).1⟩

/-! ### What is queued -/

/-- The bytes of a message with its header. -/
def packet (msgs : Messages) (message : UInt16 × Reply) : List UInt8 :=
  leBytes 4 (8 + (msgs.serialize message.2).length) ++ leBytes 2 0 ++ leBytes 2 message.1.toNat ++
    msgs.serialize message.2

/-- An append that would pass 4 GiB is copied out of bounds. The sum wraps in 32 bits, so the
buffer is not made longer. -/
theorem append_overflows (buf data : List UInt8) (r : Nat) (fits : buf.length < 2 ^ 32) (short : data.length < 2 ^ 32)
    (full : 2 ^ 32 ≤ buf.length + data.length) : (Bytes.filled buf r).append data = none := by
  have wpos : (Bytes.filled buf r).wpos.toNat = buf.length := word_toNat _ fits
  have wraps : ((Bytes.filled buf r).wpos + UInt32.ofNat data.length).toNat = buf.length + data.length - 2 ^ 32 := by
    rw [UInt32.toNat_add, wpos, word_toNat _ short]
    omega
  have size : (Bytes.filled buf r).size.toNat = buf.length := word_toNat _ fits
  have small : ¬ (Bytes.filled buf r).size < (Bytes.filled buf r).wpos + UInt32.ofNat data.length := by
    rw [UInt32.lt_iff_toNat_lt, size, wraps]
    omega
  simp only [Bytes.append, if_neg small, wpos]
  rw [if_neg]
  change ¬ buf.length + data.length ≤ buf.length
  omega

/-- An append that is defined has room. -/
theorem append_some {buf data : List UInt8} {r : Nat} {b : Bytes} (fits : buf.length < 2 ^ 32)
    (short : data.length < 2 ^ 32) (appended : (Bytes.filled buf r).append data = some b) :
    buf.length + data.length < 2 ^ 32 ∧ b = Bytes.filled (buf ++ data) r := by
  by_cases room : buf.length + data.length < 2 ^ 32
  · rw [Bytes.append_filled _ _ _ room] at appended
    exact ⟨room, (Option.some.inj appended).symm⟩
  · rw [append_overflows _ _ _ fits short (Nat.not_lt.mp room)] at appended
    cases appended

/-- A buffer below 4 GiB stays below when it is grown to a position. -/
theorem resized_lt (pack : Bytes) (stop : UInt32) (fits : pack.buf.length < 2 ^ 32) :
    (if pack.size < stop then Bytes.resize pack.buf stop.toNat else pack.buf).length < 2 ^ 32 := by
  split
  · rw [Bytes.resize, List.length_append, List.length_take, List.length_replicate]
    have bound := stop.toNat_lt
    omega
  · exact fits

/-- A message that is written has room, and stands behind what is queued. Each of the four
writes has gone well, and the last has copied the message into a buffer of the counted size. -/
theorem serializeMessage_some {M : Type*} {proto : Protobuf M} {msg : M} {type : UInt16} {buf : List UInt8}
    {r : Nat} {b : Bytes} (fits : buf.length < 2 ^ 32)
    (written : Pack.serializeMessage proto msg type (Bytes.filled buf r) = some b) :
    (buf ++ (leBytes 4 (8 + (proto.serialize msg).length) ++ leBytes 2 0 ++ leBytes 2 type.toNat ++
      proto.serialize msg)).length < 2 ^ 32 ∧
    b = Bytes.filled (buf ++ (leBytes 4 (8 + (proto.serialize msg).length) ++ leBytes 2 0 ++ leBytes 2 type.toNat ++
      proto.serialize msg)) r := by
  have room : buf.length + (8 + (proto.serialize msg).length) < 2 ^ 32 := by
    simp only [Pack.serializeMessage, Bytes.putMessage, Option.bind_eq_bind] at written
    obtain ⟨sized, putSize, written⟩ := Option.bind_eq_some_iff.mp written
    obtain ⟨room, rfl⟩ := append_some fits (by rw [leBytes_length]; decide) putSize
    rw [leBytes_length] at room
    obtain ⟨flagged, putFlag, written⟩ := Option.bind_eq_some_iff.mp written
    obtain ⟨room, rfl⟩ := append_some (by simpa using room) (by rw [leBytes_length]; decide) putFlag
    simp only [List.length_append, leBytes_length] at room
    obtain ⟨typed, putType, written⟩ := Option.bind_eq_some_iff.mp written
    obtain ⟨room, rfl⟩ := append_some (by simpa using room) (by rw [leBytes_length]; decide) putType
    simp only [List.length_append, leBytes_length] at room
    obtain ⟨copied, _⟩ := Option.ite_none_right_eq_some.mp written
    have wpos : (Bytes.filled (buf ++ leBytes 4 (8 + UInt32.ofNat (proto.byteSizeLong msg)).toNat ++
        leBytes 2 (0 : UInt16).toNat ++ leBytes 2 type.toNat) r).wpos.toNat = buf.length + 4 + 2 + 2 := by
      simp only [Bytes.filled, List.length_append, leBytes_length]
      exact word_toNat _ room
    have below := Nat.lt_of_le_of_lt copied (resized_lt _ _ (by simpa [Bytes.filled] using room))
    omega
  have body : 8 + (proto.serialize msg).length < 2 ^ 32 := by omega
  rw [Pack.serializeMessage_filled msg type body buf r room] at written
  have bytes : (Pack.ofMessage proto msg type body).serialize =
      leBytes 4 (8 + (proto.serialize msg).length) ++ leBytes 2 0 ++ leBytes 2 type.toNat ++ proto.serialize msg := rfl
  rw [← bytes]
  refine ⟨?_, (Option.some.inj written).symm⟩
  rw [List.length_append, Pack.serialize_length]
  exact room

/-- The buffer of replies holds these bytes and was never read. -/
def Queued (buf : List UInt8) (wbuf : Bytes) : Prop := buf.length < 2 ^ 32 ∧ wbuf = Bytes.filled buf 0

/-- A cleared buffer has nothing queued. -/
theorem queued_cleared : Queued [] Bytes.cleared := ⟨by decide, Bytes.cleared_eq⟩

/-- `sendMsg` queues the bytes of its message behind what is queued. -/
theorem putMessage_some {msgs : Messages} {buf : List UInt8} {wbuf wbuf' : Bytes} {message : UInt16 × Reply}
    (queued : Queued buf wbuf) (written : msgs.putMessage wbuf message.1 message.2 = some wbuf') :
    Queued (buf ++ packet msgs message) wbuf' := by
  obtain ⟨fits, rfl⟩ := queued
  rw [Messages.putMessage] at written
  obtain ⟨room, same⟩ := serializeMessage_some fits written
  have body : Pack.raw.serialize (msgs.serialize message.2) = msgs.serialize message.2 := rfl
  rw [body] at room same
  rw [packet]
  exact ⟨room, same⟩

/-- What a command has sent is queued behind what was, and the write watcher is started
with the first message. -/
theorem sendMsgs_some {msgs : Messages} {messages : List (UInt16 × Reply)} {link link' : ClientLink m}
    {buf : List UInt8} (queued : Queued buf link.wbuf) (sent : Sessions.sendMsgs msgs link messages = some link') :
    Queued (buf ++ messages.flatMap (packet msgs)) link'.wbuf ∧
      link' = { link with wbuf := link'.wbuf, cWio := link.cWio || !messages.isEmpty } := by
  induction messages generalizing link buf with
  | nil =>
    obtain rfl := Option.some.inj sent
    simpa using queued
  | cons message messages ih =>
    rw [Sessions.sendMsgs, List.foldlM_cons] at sent
    obtain ⟨next, first, rest⟩ := Option.bind_eq_some_iff.mp sent
    obtain ⟨wbuf, written, rfl⟩ := Option.map_eq_some_iff.mp first
    have started : Queued (buf ++ packet msgs message) ({ link with wbuf := wbuf, cWio := true } : ClientLink m).wbuf :=
      putMessage_some queued written
    obtain ⟨later, same⟩ := ih started rest
    refine ⟨?_, ?_⟩
    · rwa [List.flatMap_cons, ← List.append_assoc]
    · simpa using same

/-! ### The answer to a packet -/

/-- The type that a packet is answered with, when it is answered: its own for the commands
that a client sends, a pong for a ping, nothing for a pong, and otherwise `NF`. -/
def replyType (type : UInt16) : Option UInt16 :=
  if type = clientHset ∨ type = clientHget ∨ type = replSlaveof then some type
  else if type = replPing then some replPong
  else if type = replPong then none
  else some nf

/-- `onRead` runs the command of the packet on the buffer behind the header. -/
theorem handle_packet (msgs : Messages) (clock : Clock) (beyond : List UInt8) (tid : Fin m) (s : Slave m) (p : Pack) :
    handle msgs clock beyond tid s (Bytes.filled p.serialize 0) =
      (fetch p.type).bind (execute msgs clock beyond tid s (Bytes.filled p.serialize 8)) := by
  rw [handle, onRead_received]
  rfl

/-- The absolute reads of `deSerialize` find the packet behind any relative reads. -/
theorem deSerialize_behind (p : Pack) : Pack.deSerialize (Bytes.filled p.serialize 8) = some (p.type, p.body) :=
  Pack.deSerialize_packet p

/-- The types of what a command sends. -/
def sentTypes (type : UInt16) : Handler → List UInt16
  | .commandNF => [nf]
  | .commandHset => [clientHset]
  | .commandHget => [type]
  | .commandPing => [replPong]
  | .commandSlaveof => if type ≠ replSlaveof then [] else [replSlaveof]
  | .commandPong | .commandAof | .commandPsync => []

/-- What a handler sends has the types that belong to its packet, whatever the state of the
server. By cases on the handler. The handlers that answer send one message, whatever they have
found. -/
theorem execute_types {msgs : Messages} {clock : Clock} {beyond : List UInt8} {tid : Fin m}
    {s s' : Slave m} {p : Pack} {handler : Handler} {messages : List (UInt16 × Reply)}
    (executed : execute msgs clock beyond tid s (Bytes.filled p.serialize 8) handler = some (s', messages)) :
    messages.map Prod.fst = sentTypes p.type handler := by
  cases handler with
  | commandNF | commandPing | commandPong =>
    obtain ⟨_, rfl⟩ := Prod.mk.inj (Option.some.inj executed)
    rfl
  | commandHset =>
    simp only [execute, Option.bind_eq_bind, Option.bind_eq_some_iff, Option.some.injEq, Prod.mk.injEq] at executed
    obtain ⟨_, _, _, _, _, rfl⟩ := executed
    rfl
  | commandHget =>
    simp only [execute, deSerialize_behind, Option.bind_eq_bind, Option.bind_some, Option.some.injEq,
      Prod.mk.injEq] at executed
    obtain ⟨_, rfl⟩ := executed
    rfl
  | commandSlaveof =>
    simp only [execute, deSerialize_behind, Option.bind_eq_bind, Option.bind_some] at executed
    simp only [sentTypes]
    split at executed
    · rename_i other
      obtain ⟨_, rfl⟩ := Prod.mk.inj (Option.some.inj executed)
      rw [if_pos other]
      rfl
    · rename_i own
      obtain ⟨_, rfl⟩ := Prod.mk.inj (Option.some.inj executed)
      rw [if_neg own]
      rfl
  | commandAof | commandPsync => cases executed

/-- A packet of an unregistered type is refused. -/
theorem handle_unregistered {msgs : Messages} {clock : Clock} {beyond : List UInt8} {tid : Fin m}
    {s s' : Slave m} {p : Pack} {messages : List (UInt16 × Reply)}
    (handled : handle msgs clock beyond tid s (Bytes.filled p.serialize 0) = some (s', messages))
    (unregistered : cmds.lookup p.type = none) : messages = [(nf, .command ⟨1, "Command Not Found"⟩)] := by
  rw [handle_packet, fetch_eq, unregistered] at handled
  obtain ⟨handler, fetched, executed⟩ := Option.bind_eq_some_iff.mp handled
  obtain ⟨_, found⟩ := Option.ite_none_right_eq_some.mp fetched
  obtain rfl := Option.some.inj found
  exact (Prod.mk.inj (Option.some.inj executed)).2.symm

/-- A packet that is handled is answered by one message of its reply type, or by none. An
unregistered type is answered by `nf`, a registered one by its handler. -/
theorem handle_types {msgs : Messages} {clock : Clock} {beyond : List UInt8} {tid : Fin m}
    {s s' : Slave m} {p : Pack} {messages : List (UInt16 × Reply)}
    (handled : handle msgs clock beyond tid s (Bytes.filled p.serialize 0) = some (s', messages)) :
    messages.map Prod.fst = (replyType p.type).toList := by
  rw [handle_packet] at handled
  obtain ⟨handler, fetched, executed⟩ := Option.bind_eq_some_iff.mp handled
  have sent := execute_types executed
  rw [fetch] at fetched
  obtain ⟨_, found⟩ := Option.ite_none_left_eq_some.mp fetched
  obtain rfl := Option.some.inj found
  rw [sent]
  by_cases hset : p.type = clientHset
  · rw [hset]
    rfl
  by_cases hget : p.type = clientHget
  · rw [hget]
    rfl
  by_cases multi : p.type = replMulti
  · rw [multi] at executed
    cases executed
  by_cases psync : p.type = replPsync
  · rw [psync] at executed
    cases executed
  by_cases slaveof : p.type = replSlaveof
  · rw [slaveof]
    rfl
  by_cases ping : p.type = replPing
  · rw [ping]
    rfl
  by_cases pong : p.type = replPong
  · rw [pong]
    rfl
  · simp [replyType, hset, hget, multi, psync, slaveof, ping, pong, sentTypes]

/-! ### What a step does -/

namespace Sessions

/-- What holds of every link: its error and its descriptor tell the same, the descriptor is
its own, the read watcher runs until the connection is closed, and the write watcher while
there is something to write. -/
structure Kept (s : Sessions m) (c : Nat) (link : ClientLink m) : Prop where
  closed : link.err = true ↔ link.fd = none
  owns : ∀ fd, link.fd = some fd ↔ s.fds fd = some c
  reads : link.cRio = !link.err
  queued : Queued link.wbuf.buf link.wbuf
  writes : link.cWio = true → link.wbuf.buf ≠ []
  waits : link.err = false → link.wbuf.buf ≠ [] → link.cWio = true

/-- It holds of every link, and descriptors belong to links. -/
structure Inv (s : Sessions m) : Prop where
  kept : ∀ c link, s.links c = some link → s.Kept c link
  linked : ∀ fd c, s.fds fd = some c → s.links c ≠ none

/-- The descriptors when a link has the other instead. -/
def freed (s : Sessions m) (link link' : ClientLink m) : Nat → Option Nat :=
  match link.fd, link'.fd with
  | some fd, none => Function.update s.fds fd none
  | _, _ => s.fds

/-- A callback of one connection changes the server, its link and its peer, and may give its
descriptor back. -/
def after (s : Sessions m) (c : Nat) (link : ClientLink m) (slave : Slave m) (link' : ClientLink m) (peer : Peer) :
    Sessions m where
  slave := slave
  fds := s.freed link link'
  links := Function.update s.links c (some link')
  peers := Function.update s.peers c peer

section Fields

variable (s : Sessions m) (c : Nat) (link link' : ClientLink m) (slave : Slave m) (peer : Peer)

/-- Behind a callback its link is the new one, and no other link has changed, -/
@[simp] theorem after_links : (s.after c link slave link' peer).links = Function.update s.links c (some link') := rfl

/-- the descriptor is free when the link has closed, -/
@[simp] theorem after_fds : (s.after c link slave link' peer).fds = s.freed link link' := rfl

/-- and no other peer has seen anything. -/
@[simp] theorem after_peers : (s.after c link slave link' peer).peers = Function.update s.peers c peer := rfl

/-- Replacing a link changes that link, -/
@[simp] theorem setLink_links : (s.setLink c link).links = Function.update s.links c (some link) := rfl

/-- and no descriptor. -/
@[simp] theorem setLink_fds : (s.setLink c link).fds = s.fds := rfl

end Fields

/-- The callbacks of a link: a packet is served; the connection breaks under `recv`; the
replies are sent; the connection breaks under `send`; a write watcher that was left behind
finds the error and is stopped. -/
inductive Callback (msgs : Messages) (s : Sessions m) (c : Nat) (link : ClientLink m) :
    Event m → Slave m → ClientLink m → Peer → Prop
  | served {results clock beyond slave link'} (p : Pack) (sent : List UInt8) (messages : List (UInt16 × Reply))
      (sound : link.err = false)
      (received : link.recv results (s.peers c).sent = some (some (Bytes.filled p.serialize 0), sent))
      (split : (s.peers c).sent = p.serialize ++ sent)
      (handled : handle msgs clock beyond link.workerId s.slave (Bytes.filled p.serialize 0) = some (slave, messages))
      (queued : sendMsgs msgs link messages = some link') :
      Callback msgs s c link (.onRead c results clock beyond) slave link' ⟨sent, (s.peers c).received⟩
  | cut {results clock beyond} (lost : Nat) (sound : link.err = false)
      (received : link.recv results (s.peers c).sent = some (none, (s.peers c).sent.drop lost)) :
      Callback msgs s c link (.onRead c results clock beyond) s.slave link.close
        ⟨(s.peers c).sent.drop lost, (s.peers c).received⟩
  | wrote {results} (sound : link.err = false) :
      Callback msgs s c link (.onWrite c results) s.slave { link with wbuf := Bytes.cleared, cWio := false }
        ⟨(s.peers c).sent, (s.peers c).received ++ link.wbuf.buf⟩
  | failed {results} (sent : Nat) (sound : link.err = false) :
      Callback msgs s c link (.onWrite c results) s.slave { link.close with cWio := false }
        ⟨(s.peers c).sent, (s.peers c).received ++ link.wbuf.buf.take sent⟩
  | stale {results} (broken : link.err = true) :
      Callback msgs s c link (.onWrite c results) s.slave { link with cWio := false } (s.peers c)

/-- The bytes of an open link go to its own peer. -/
theorem deliver_open {s : Sessions m} {c fd : Nat} {link : ClientLink m} (kept : s.Kept c link)
    (own : link.fd = some fd) (bytes : List UInt8) :
    s.deliver link.fd bytes = s.setPeer c { s.peers c with received := (s.peers c).received ++ bytes } := by
  rw [deliver, own, Option.bind_some, (kept.owns fd).mp own]

/-- A read watcher that runs takes a packet off the stream of its peer, or finds the connection
broken. By cases on what `recv` returns: a packet, an end, or an error. -/
theorem onRead_callback {msgs : Messages} {s s' : Sessions m} {c : Nat} {link : ClientLink m} {results : List Nat}
    {clock : Clock} {beyond : List UInt8} (kept : s.Kept c link) (runs : link.cRio = true)
    (stepped : s.onRead msgs c link results clock beyond = some s') :
    ∃ slave link' peer, Callback msgs s c link (.onRead c results clock beyond) slave link' peer ∧
      s' = s.after c link slave link' peer := by
  have sound : link.err = false := by
    have reads := kept.reads
    rw [runs] at reads
    simpa using reads.symm
  rw [onRead] at stepped
  split at stepped
  · cases stepped
  · rename_i sent received
    obtain rfl := Option.some.inj stepped
    rcases link.recv_cases received with ⟨_, packet, _⟩ | ⟨_, lost, rfl⟩
    · cases packet
    · refine ⟨_, _, _, .cut lost sound received, ?_⟩
      rw [after, freed, free]
      cases link.fd <;> rfl
  · rename_i rbuf sent received
    rcases link.recv_cases received with ⟨p, packet, split, _⟩ | ⟨nothing, _⟩
    · obtain rfl := Option.some.inj packet
      obtain ⟨⟨slave, messages⟩, handled, rest⟩ := Option.bind_eq_some_iff.mp stepped
      obtain ⟨link', queued, rest⟩ := Option.bind_eq_some_iff.mp rest
      obtain rfl := Option.some.inj rest
      refine ⟨slave, link', _, .served p sent messages sound received split handled queued, ?_⟩
      have same := (sendMsgs_some kept.queued queued).2
      have fd : link'.fd = link.fd := by rw [same]
      rw [after, freed, fd]
      cases link.fd <;> rfl
    · cases nothing

/-- A write watcher that runs sends all replies or breaks the connection; on a broken
connection nothing is sent. By cases on whether the link is broken and on what `send`
returns. -/
theorem onWrite_callback (msgs : Messages) {s s' : Sessions m} {c : Nat} {link : ClientLink m}
    {results : List Connection.SendResult} (kept : s.Kept c link) (runs : link.cWio = true)
    (stepped : s.onWrite c link results = some s') :
    ∃ slave link' peer, Callback msgs s c link (.onWrite c results) slave link' peer ∧
      s' = s.after c link slave link' peer := by
  have filled : link.wbuf.size ≠ 0 := by
    intro empty
    have size : link.wbuf.size.toNat = link.wbuf.buf.length := word_toNat _ kept.queued.1
    rw [empty] at size
    exact kept.writes runs (List.eq_nil_of_length_eq_zero size.symm)
  rw [onWrite, if_neg filled] at stepped
  obtain ⟨sent, done, rfl⟩ := Option.map_eq_some_iff.mp stepped
  rcases link.send_cases done with ⟨rfl, sound⟩ | part
  · obtain ⟨fd, own⟩ : ∃ fd, link.fd = some fd := by
      cases held : link.fd with
      | none => rw [kept.closed.mpr held] at sound; cases sound
      | some fd => exact ⟨fd, rfl⟩
    refine ⟨_, _, _, .wrote sound, ?_⟩
    rw [deliver_open kept own, List.take_length]
    simp only [after, freed, own, setPeer, setLink, if_true]
  · cases broken : link.err with
    | true =>
      refine ⟨_, _, _, .stale broken, ?_⟩
      have closed := kept.closed.mp broken
      have idle : link.cRio = false := by rw [kept.reads, broken]; rfl
      simp only [part, deliver, closed, free, after, freed, setLink, ClientLink.close, idle, broken,
        Option.bind_none, Bool.false_eq_true, if_false, Function.update_eq_self]
    | false =>
      obtain ⟨fd, own⟩ : ∃ fd, link.fd = some fd := by
        cases held : link.fd with
        | none => rw [kept.closed.mpr held] at broken; cases broken
        | some fd => exact ⟨fd, rfl⟩
      refine ⟨_, _, _, .failed sent.1 broken, ?_⟩
      rw [deliver_open kept own]
      simp only [part, after, freed, own, setPeer, setLink, free, ClientLink.close, Bool.false_eq_true, if_false]

/-- A callback keeps the descriptor of its link or gives it back. -/
theorem Callback.fd {msgs : Messages} {s : Sessions m} {c : Nat} {link : ClientLink m} {event : Event m}
    {slave : Slave m} {link' : ClientLink m} {peer : Peer} (callback : Callback msgs s c link event slave link' peer)
    (kept : s.Kept c link) : link'.fd = link.fd ∨ link'.fd = none := by
  cases callback with
  | served p sent messages sound received split handled queued =>
    rw [(sendMsgs_some kept.queued queued).2]
    exact .inl rfl
  | cut => exact .inr rfl
  | wrote => exact .inl rfl
  | failed => exact .inr rfl
  | stale => exact .inl rfl

/-- The descriptors afterwards: those of the other links, and the one the link still has. A
link that is closed by the callback gives its descriptor back, and no other link had it. -/
theorem freed_iff {s : Sessions m} {c : Nat} {link link' : ClientLink m} (kept : s.Kept c link)
    (same : link'.fd = link.fd ∨ link'.fd = none) (fd c' : Nat) :
    s.freed link link' fd = some c' ↔ s.fds fd = some c' ∧ (c' = c → link'.fd = some fd) := by
  have owns := kept.owns fd
  rw [freed]
  cases held : link.fd with
  | none =>
    have closed : link'.fd = none := same.elim (fun same => same.trans held) id
    rw [closed]
    refine ⟨fun taken => ⟨taken, ?_⟩, And.left⟩
    rintro rfl
    rw [← owns, held] at taken
    cases taken
  | some own =>
    rw [held, Option.some.injEq] at owns
    cases left : link'.fd with
    | none =>
      dsimp only
      by_cases here : fd = own
      · obtain rfl := here
        rw [Function.update_self]
        refine ⟨nofun, fun ⟨taken, keeps⟩ => ?_⟩
        obtain rfl := Option.some.inj ((owns.mp rfl).symm.trans taken)
        cases keeps rfl
      · rw [Function.update_of_ne here]
        refine ⟨fun taken => ⟨taken, ?_⟩, And.left⟩
        rintro rfl
        exact absurd (owns.mpr taken).symm here
    | some kept' =>
      have same' : kept' = own := by
        rcases same with same | same
        · rw [left, held] at same
          exact Option.some.inj same
        · rw [left] at same
          cases same
      refine ⟨fun taken => ⟨taken, ?_⟩, And.left⟩
      rintro rfl
      rw [same', owns.mpr taken]

/-- What holds of a link holds of it after its callback. By cases on the callback: what is
queued and whether the watcher runs change together. -/
theorem Callback.kept {msgs : Messages} {s : Sessions m} {c : Nat} {link : ClientLink m} {event : Event m}
    {slave : Slave m} {link' : ClientLink m} {peer : Peer} (callback : Callback msgs s c link event slave link' peer)
    (kept : s.Kept c link) : (s.after c link slave link' peer).Kept c link' := by
  have owns : ∀ fd, link'.fd = some fd ↔ (s.after c link slave link' peer).fds fd = some c := by
    intro fd
    rw [after, freed_iff kept (callback.fd kept)]
    refine ⟨fun own => ⟨?_, fun _ => own⟩, fun both => both.2 rfl⟩
    rcases callback.fd kept with same | none
    · exact (kept.owns fd).mp (same ▸ own)
    · rw [none] at own
      cases own
  cases callback with
  | served p sent messages sound received split handled queued =>
    obtain ⟨behind, same⟩ := sendMsgs_some kept.queued queued
    have buf : link'.wbuf.buf = link.wbuf.buf ++ messages.flatMap (packet msgs) := by rw [behind.2]; rfl
    have err : link'.err = link.err := by rw [same]
    have fd : link'.fd = link.fd := by rw [same]
    have reads : link'.cRio = link.cRio := by rw [same]
    have writes : link'.cWio = (link.cWio || !messages.isEmpty) := by rw [same]
    refine ⟨by rw [err, fd]; exact kept.closed, owns, by rw [reads, err]; exact kept.reads, by rwa [buf], ?_, ?_⟩
    · intro runs
      rw [writes, Bool.or_eq_true] at runs
      rw [buf]
      rcases runs with runs | some
      · exact List.append_ne_nil_of_left_ne_nil (kept.writes runs) _
      · refine List.append_ne_nil_of_right_ne_nil _ ?_
        cases messages with
        | nil => cases some
        | cons message messages => simp [packet, leBytes]
    · intro _ filled
      rw [writes, Bool.or_eq_true]
      rw [buf] at filled
      cases messages with
      | nil => exact .inl (kept.waits sound (by simpa using filled))
      | cons message messages => exact .inr rfl
  | cut lost sound received =>
    exact ⟨⟨fun _ => rfl, fun _ => rfl⟩, owns, rfl, kept.queued, kept.writes, (fun sound => by cases sound)⟩
  | wrote sound => exact ⟨kept.closed, owns, kept.reads, queued_cleared, (fun runs => by cases runs),
      fun _ filled => absurd rfl filled⟩
  | failed sent sound =>
    exact ⟨⟨fun _ => rfl, fun _ => rfl⟩, owns, rfl, kept.queued, (fun runs => by cases runs),
      (fun sound => by cases sound)⟩
  | stale broken =>
    exact ⟨kept.closed, owns, kept.reads, kept.queued, (fun runs => by cases runs),
      (fun sound => by cases sound.symm.trans broken)⟩

/-- A callback of one link is nothing to another. -/
theorem Kept.other {s : Sessions m} {c c' : Nat} {link link' other : ClientLink m} {slave : Slave m} {peer : Peer}
    (kept : s.Kept c link) (same : link'.fd = link.fd ∨ link'.fd = none) (apart : c' ≠ c)
    (holds : s.Kept c' other) : (s.after c link slave link' peer).Kept c' other where
  closed := holds.closed
  owns := fun fd => by
    rw [after, freed_iff kept same, holds.owns fd]
    exact ⟨fun own => ⟨own, fun here => absurd here apart⟩, And.left⟩
  reads := holds.reads
  queued := holds.queued
  writes := holds.writes
  waits := holds.waits

variable {msgs : Messages} {s s' : Sessions m} {event : Event m}

/-- A watcher that runs its callback, and what comes of it. -/
theorem Inv.callback (inv : s.Inv) {c : Nat} (watched : (∃ results clock beyond, event = .onRead c results clock beyond) ∨
    ∃ results, event = .onWrite c results) (stepped : step msgs s event = some s') :
    ∃ link slave link' peer, s.links c = some link ∧ Callback msgs s c link event slave link' peer ∧
      s' = s.after c link slave link' peer := by
  rcases watched with ⟨results, clock, beyond, rfl⟩ | ⟨results, rfl⟩
  · obtain ⟨link, there, ran⟩ := Option.bind_eq_some_iff.mp stepped
    obtain ⟨runs, ran⟩ := Option.ite_none_right_eq_some.mp ran
    obtain ⟨slave, link', peer, callback, rfl⟩ := onRead_callback (inv.kept c link there) runs ran
    exact ⟨link, slave, link', peer, there, callback, rfl⟩
  · obtain ⟨link, there, ran⟩ := Option.bind_eq_some_iff.mp stepped
    obtain ⟨runs, ran⟩ := Option.ite_none_right_eq_some.mp ran
    obtain ⟨slave, link', peer, callback, rfl⟩ := onWrite_callback msgs (inv.kept c link there) runs ran
    exact ⟨link, slave, link', peer, there, callback, rfl⟩

/-- The links keep what holds of them over a callback. The callback changes its own link; the
descriptors of the others stay with them. -/
theorem Inv.after (inv : s.Inv) {c : Nat} {link link' : ClientLink m} {slave : Slave m} {peer : Peer}
    (there : s.links c = some link) (callback : Callback msgs s c link event slave link' peer) :
    (s.after c link slave link' peer).Inv := by
  have kept := inv.kept c link there
  refine ⟨fun c' other found => ?_, fun fd c' taken => ?_⟩
  · by_cases here : c' = c
    · obtain rfl := here
      rw [after_links, Function.update_self] at found
      obtain rfl := Option.some.inj found
      exact callback.kept kept
    · rw [after_links, Function.update_of_ne here] at found
      exact kept.other (callback.fd kept) here (inv.kept c' other found)
  · rw [after_fds, freed_iff kept (callback.fd kept)] at taken
    rw [after_links]
    by_cases here : c' = c
    · rw [here, Function.update_self]
      exact nofun
    · rw [Function.update_of_ne here]
      exact inv.linked fd c' taken.1

/-- A new link holds what every link does. Its descriptor was free, so no other link had it. -/
theorem Inv.accept (inv : s.Inv) {c fd : Nat} (workerId : Fin m) (unknown : s.links c = none)
    (unused : s.fds fd = none) :
    ({ s with fds := Function.update s.fds fd (some c) }.setLink c
      ⟨workerId, some fd, false, Bytes.cleared, true, false⟩).Inv := by
  have never : ∀ other, s.fds other ≠ some c := fun other taken => inv.linked other c taken unknown
  refine ⟨fun c' link found => ?_, fun fd' c' taken => ?_⟩
  · by_cases here : c' = c
    · obtain rfl := here
      rw [setLink_links, Function.update_self] at found
      obtain rfl := Option.some.inj found
      refine ⟨⟨nofun, nofun⟩, fun fd' => ?_, rfl, queued_cleared, nofun, fun _ filled => absurd rfl filled⟩
      rw [setLink_fds]
      by_cases at' : fd' = fd
      · simp [at']
      · simp [Function.update_of_ne at', never fd', Ne.symm at']
    · rw [setLink_links, Function.update_of_ne here] at found
      have kept := inv.kept c' link found
      refine ⟨kept.closed, fun fd' => ?_, kept.reads, kept.queued, kept.writes, kept.waits⟩
      rw [setLink_fds, kept.owns fd']
      by_cases at' : fd' = fd
      · simp [at', unused, Ne.symm here]
      · simp [Function.update_of_ne at']
  · rw [setLink_links]
    by_cases here : c' = c
    · simp [here]
    · rw [Function.update_of_ne here]
      refine inv.linked fd' c' ?_
      rw [setLink_fds] at taken
      by_cases at' : fd' = fd
      · simp [at', Ne.symm here] at taken
      · exact (Function.update_of_ne at' _ _).symm.trans taken

/-- What holds of the links is about the links and the descriptors. -/
theorem Inv.same (inv : s.Inv) (links : s'.links = s.links) (fds : s'.fds = s.fds) : s'.Inv where
  kept := fun c link found => by
    rw [links] at found
    have kept := inv.kept c link found
    exact ⟨kept.closed, by rw [fds]; exact kept.owns, kept.reads, kept.queued, kept.writes, kept.waits⟩
  linked := fun fd c taken => by
    rw [fds] at taken
    rw [links]
    exact inv.linked fd c taken

/-- Every step keeps what holds of the links. What arrives and what other events do to the slave
does not concern them. -/
theorem Inv.step (inv : s.Inv) (stepped : Sessions.step msgs s event = some s') : s'.Inv := by
  cases event with
  | arrive c bytes =>
    obtain rfl := Option.some.inj stepped
    exact inv.same rfl rfl
  | accept c fd workerId =>
    obtain ⟨⟨unknown, unused⟩, rest⟩ := Option.ite_none_right_eq_some.mp stepped
    obtain rfl := Option.some.inj rest
    exact inv.accept workerId unknown unused
  | others slave =>
    obtain rfl := Option.some.inj stepped
    exact inv.same rfl rfl
  | onRead c results clock beyond =>
    obtain ⟨link, slave, link', peer, there, callback, rfl⟩ := inv.callback (.inl ⟨results, clock, beyond, rfl⟩) stepped
    exact inv.after there callback
  | onWrite c results =>
    obtain ⟨link, slave, link', peer, there, callback, rfl⟩ := inv.callback (.inr ⟨results, rfl⟩) stepped
    exact inv.after there callback

/-- Before the first accept there is no link, and nothing to hold. -/
theorem inv_fresh (slave : Slave m) : (fresh slave).Inv := ⟨nofun, nofun⟩

end Sessions

end Naruto.Link
