import Naruto.Theory.Responder
import Naruto.Link.Dispatch
import Naruto.Command.Hget
import Naruto.Connection.Connect
import Naruto.Utils.PackCodec
import Naruto.Replication.Slave

/-!
# Serving the links

Each link has a read watcher, a write watcher and a buffer for its replies. `onRead`
takes one packet off the socket and runs its command, which queues a reply with
`sendMsg`; `onWrite` sends what is queued. The callbacks of all links come in any order,
the kernel gives the descriptor of a closed link to the next connection, and a write
watcher may still be started on it. One callback is one step; between two of them the
other threads may leave the server in any state. The links are `clientLink`s. Three
commands take theirs for a `replicaLink`: `SLAVEOF` uses only what a `clientLink` has, and
is run; `PSYNC` and `REPL_MULTI` go beyond, and are not run.
-/

namespace Naruto.Link

open Naruto.Theory Naruto.Utils Naruto.Database Naruto.Command Naruto.Replication

/-- `replication::command_slaveof`. -/
structure CommandSlaveof where
  ip : String
  port : Int64
deriving DecidableEq, Repr

/-- `replication::command_pong`. -/
structure CommandPong where
  ip : String
deriving DecidableEq, Repr

/-- The messages that the commands send. -/
inductive Reply
  | command (reply : CommandReply)
  | hget (reply : CommandHgetReply)
  | pong (pong : CommandPong)
deriving DecidableEq, Repr

/-- protobuf, for the messages that the commands read and send. -/
structure Messages where
  hset : ParseHset
  hget : ParseHget
  slaveof : List UInt8 → CommandSlaveof
  reply : CommandReply → List UInt8
  hgetReply : CommandHgetReply → List UInt8
  pong : CommandPong → List UInt8

/-- The body that a message is sent as. -/
def Messages.serialize (msgs : Messages) : Reply → List UInt8
  | .command reply => msgs.reply reply
  | .hget reply => msgs.hgetReply reply
  | .pong pong => msgs.pong pong

/-- `Pack::serialize(msg, type, wbuf)` in `sendMsg`; of the message it uses the bytes and
their number. -/
def Messages.putMessage (msgs : Messages) (wbuf : Bytes) (type : UInt16) (reply : Reply) : Option Bytes :=
  Pack.serializeMessage Pack.raw (msgs.serialize reply) type wbuf

/-- The packet in a buffer whose length word is its size. -/
def packOf (buf : List UInt8) : Option Pack :=
  if fits : 8 + (buf.drop 8).length < 2 ^ 32 then
    if 8 ≤ buf.length ∧ leNat (buf.take 4) = buf.length then
      some ⟨UInt16.ofNat (leNat ((buf.drop 4).take 2)), UInt16.ofNat (leNat ((buf.drop 6).take 2)), buf.drop 8,
        fits⟩
    else none
  else none

/-- `clientLink`, with the descriptor and the error of its `Connect`, and with its two
watchers. `onRead` clears `rbuf` before it uses it. -/
structure ClientLink (m : Nat) where
  workerId : Fin m
  fd : Option Nat
  err : Bool
  wbuf : Bytes
  cRio : Bool
  cWio : Bool
deriving DecidableEq

/-- The other end of a connection: what it has sent and the server has not read, and what
has been sent to it. -/
structure Peer where
  sent : List UInt8
  received : List UInt8
deriving DecidableEq

/-- The server, the descriptors with the connections they belong to, and the two ends of
every connection. -/
structure Sessions (m : Nat) where
  slave : Slave m
  fds : Nat → Option Nat
  links : Nat → Option (ClientLink m)
  peers : Nat → Peer

variable {m : Nat}

/-- `exec` of the commands, on a link that `onRead` has read a packet into: the server
afterwards, and the messages given to `sendMsg`, with their types. `beyond` is what
`CommandHset::exec` parses when the length that it reads goes beyond the buffer. Nothing
when the process dies, or when the command uses what only a `replicaLink` has. -/
def execute (msgs : Messages) (clock : Clock) (beyond : List UInt8) (tid : Fin m) (s : Slave m) (rbuf : Bytes) :
    Handler → Option (Slave m × List (UInt16 × Reply))
  | .commandNF => some (s, [(nf, .command ⟨1, "Command Not Found"⟩)])
  | .commandHset => do
    let args := hsetExec rbuf
    let (buckets, reply) ← execMsg msgs.hset clock args.flag args.type s.server.buckets (args.bytes beyond)
    let pack ← packOf rbuf.buf
    let server := { s.server with
      buckets := buckets
      backlog := if reply.errcode = 0 then s.server.backlog.backlogFeed tid pack else s.server.backlog }
    some ({ s with server := server }, [(clientHset, .command reply)])
  | .commandHget => do
    let (type, body) ← Pack.deSerialize rbuf
    some (s, [(type, .hget (CommandHget.exec msgs.hget s.server.buckets body))])
  | .commandPing => some (s, [(replPong, .pong ⟨"127.0.0.1"⟩)])
  | .commandPong => some (s, [])
  | .commandSlaveof => do
    let (type, body) ← Pack.deSerialize rbuf
    let cmd := msgs.slaveof body
    if type ≠ replSlaveof then some (s, [])
    else some (s.slaveof cmd.ip (cmd.port.toInt.bmod (2 ^ 32)), [(replSlaveof, .command ⟨0, "success"⟩)])
  | .commandAof => none
  | .commandPsync => none

/-- `clientLink::onRead` behind `recv`. -/
def handle (msgs : Messages) (clock : Clock) (beyond : List UInt8) (tid : Fin m) (s : Slave m) (rbuf : Bytes) :
    Option (Slave m × List (UInt16 × Reply)) := do
  let (rbuf, type) := onRead rbuf
  execute msgs clock beyond tid s rbuf (← fetch type)

/-- `connect->recv(rbuf)`: the packet, or nothing when it throws, and what is left unread.
The results are those of the calls of `::recv`; when they do not make a packet the next
call finds the connection closed or fails. Nothing at all when the process waits, the
results are impossible, or the buffer overflows. -/
def ClientLink.recv (link : ClientLink m) (results : List Nat) (stream : List UInt8) :
    Option (Option Bytes × List UInt8) :=
  if link.err ∨ link.fd = none then some (none, stream)
  else match Connection.recv results stream with
    | .returned rbuf [] stream => some (some rbuf, stream)
    | .waiting => some (none, stream.drop results.sum)
    | _ => none

/-- `connect->send(wbuf)`: how many bytes reach the peer, and whether all of them did.
When the results do not make up the buffer the next call of `::send` fails. -/
def ClientLink.send (link : ClientLink m) (results : List Connection.SendResult) : Option (Nat × Bool) :=
  if link.err ∨ link.fd = none then some (0, false)
  else if Connection.written results < link.wbuf.buf.length then some (Connection.written results, false)
  else (Connection.send results link.wbuf.buf).map fun wire => (wire.length, true)

/-- `close` after a failed call on the connection. -/
def ClientLink.close (link : ClientLink m) : ClientLink m := { link with fd := none, err := true, cRio := false }

namespace Sessions

/-- What happens: a peer sends bytes; a connection is accepted; the other threads work on
the server; a read watcher or a write watcher finds its descriptor ready. With a read comes
what its command may find beyond the buffer. -/
inductive Event (m : Nat)
  | arrive (c : Nat) (bytes : List UInt8)
  | accept (c fd : Nat) (workerId : Fin m)
  | others (slave : Slave m)
  | onRead (c : Nat) (results : List Nat) (clock : Clock) (beyond : List UInt8)
  | onWrite (c : Nat) (results : List Connection.SendResult)

/-- The link of a connection becomes another. -/
def setLink (s : Sessions m) (c : Nat) (link : ClientLink m) : Sessions m :=
  { s with links := Function.update s.links c (some link) }

/-- The other end of a connection becomes another. -/
def setPeer (s : Sessions m) (c : Nat) (peer : Peer) : Sessions m :=
  { s with peers := Function.update s.peers c peer }

/-- The kernel takes the descriptor of a link back. -/
def free (s : Sessions m) (link : ClientLink m) : Sessions m :=
  match link.fd with
  | none => s
  | some fd => { s with fds := Function.update s.fds fd none }

/-- `sendMsg` for the messages of a command. -/
def sendMsgs (msgs : Messages) (link : ClientLink m) (messages : List (UInt16 × Reply)) : Option (ClientLink m) :=
  messages.foldlM (fun link message =>
    (msgs.putMessage link.wbuf message.1 message.2).map fun wbuf => { link with wbuf := wbuf, cWio := true }) link

/-- `clientLink::onRead`. Without a packet the link is closed and its descriptor goes back;
with one it is handled, and the messages of its handler are queued. -/
def onRead (msgs : Messages) (s : Sessions m) (c : Nat) (link : ClientLink m) (results : List Nat) (clock : Clock)
    (beyond : List UInt8) : Option (Sessions m) :=
  match link.recv results (s.peers c).sent with
  | none => none
  | some (none, sent) => some (((s.free link).setLink c link.close).setPeer c { s.peers c with sent := sent })
  | some (some rbuf, sent) => do
    let (slave, messages) ← handle msgs clock beyond link.workerId s.slave rbuf
    let link ← sendMsgs msgs link messages
    some (({ s with slave := slave }.setLink c link).setPeer c { s.peers c with sent := sent })

/-- The bytes go to the connection that the descriptor belongs to. -/
def deliver (s : Sessions m) (fd : Option Nat) (bytes : List UInt8) : Sessions m :=
  match fd.bind s.fds with
  | none => s
  | some c => s.setPeer c { s.peers c with received := (s.peers c).received ++ bytes }

/-- `clientLink::onWrite`. -/
def onWrite (s : Sessions m) (c : Nat) (link : ClientLink m) (results : List Connection.SendResult) :
    Option (Sessions m) :=
  if link.wbuf.size = 0 then some s
  else (link.send results).map fun sent =>
    let s := s.deliver link.fd (link.wbuf.buf.take sent.1)
    if sent.2 then s.setLink c { link with wbuf := Bytes.cleared, cWio := false }
    else (s.free link).setLink c { link.close with cWio := false }

/-- One event. Bytes arrive from a peer, a link is accepted with a free descriptor, the rest of
the server does something, or one of the watchers runs that the link has started. -/
def step (msgs : Messages) (s : Sessions m) : Event m → Option (Sessions m)
  | .arrive c bytes => some (s.setPeer c { s.peers c with sent := (s.peers c).sent ++ bytes })
  | .accept c fd workerId =>
    if s.links c = none ∧ s.fds fd = none then
      some ({ s with fds := Function.update s.fds fd (some c) }.setLink c
        ⟨workerId, some fd, false, Bytes.cleared, true, false⟩)
    else none
  | .others slave => some { s with slave := slave }
  | .onRead c results clock beyond => (s.links c).bind fun link =>
    if link.cRio then s.onRead msgs c link results clock beyond else none
  | .onWrite c results => (s.links c).bind fun link => if link.cWio then s.onWrite c link results else none

/-- What arrives on a connection with an event. -/
def arrived (c : Nat) : Event m → List UInt8
  | .arrive c' bytes => if c' = c then bytes else []
  | _ => []

/-- The packet that is handled on a connection with an event, and the messages that
answer it. -/
def exchange (msgs : Messages) (c : Nat) (s : Sessions m) : Event m → List (Pack × List (UInt16 × Reply))
  | .onRead c' results clock beyond =>
    if c' = c then
      (do
        let link ← s.links c
        let rbuf ← (← link.recv results (s.peers c).sent).1
        let p ← packOf rbuf.buf
        some (p, (← handle msgs clock beyond link.workerId s.slave rbuf).2)).toList
    else []
  | _ => []

/-- A server without connections. -/
def fresh (slave : Slave m) : Sessions m := ⟨slave, fun _ => none, fun _ => none, fun _ => ⟨[], []⟩⟩

end Sessions

end Naruto.Link
