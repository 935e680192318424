import Naruto.Replication.MasterDump
import Naruto.Replication.ReplicaLink

/-!
# A master and its slave

The two servers together, and the connection between them. The master executes and
merges commands, dumps its store, answers the request of the slave and sends its AOF
with a timer; the slave connects, asks to go on from its position, receives a file,
executes messages in the order they were sent, and gives the connection up. A new
request replaces the connection: what was in flight on the old one is lost. The commands of
the master's clients are executed as `CommandHset::exec` executes them, with arguments that
it may read beyond its buffer; that they do what their packets do is a condition on the run.
-/

namespace Naruto.Replication

open Naruto.Theory Naruto.Utils Naruto.Utils.File Naruto.Sink Naruto.Database Naruto.Command

/-- The name and the offset of a position, as a `replicaLink` holds them. -/
def replicaLink (position : FileState) : ReplicaLink :=
  ⟨position.name.elim "" genAofFilename, position.offset⟩

/-- The number in the name of an AOF file. -/
def fileNumber (name : String) : Option Nat :=
  (parseFileName name).bind fun number => if 0 ≤ number then some number.toNat else none

/-- A command of a message as a packet with flag zero. -/
def carry (type : UInt16) (command : List UInt8) : Option Pack :=
  if fits : 8 + command.length < 2 ^ 32 then some ⟨0, type, command, fits⟩ else none

/-- What the slave reads in a message: its commands, and the position behind them. -/
def CommandAof.multi (message : CommandAof) : Option Multi :=
  ((message.types.zip message.commands).mapM fun entry => carry entry.1 entry.2).map fun commands =>
    ⟨commands, ⟨fileNumber message.aofName, message.aofOff⟩⟩

/-- The master's end of the connection: its state, and the cursor it sends from. -/
structure MasterEnd where
  replState : ReplState
  cursor : ReplicaLink
deriving DecidableEq, Repr

/-- Both servers, the master's end of the connection, and the messages in flight. -/
structure Pair (k m : Nat) where
  master : Server k
  replica : Option MasterEnd
  wire : List CommandAof
  slave : Slave m

namespace Pair

variable {k m : Nat}

/-- What happens: an event of the master; an event that the slave has on its own; a
readiness event of the handshake, in which the master can be reached or not; the end of
the master's sending of the file; a tick of the incremental sender; the next message. -/
inductive Event (k m : Nat)
  | master (event : FirstSync.Event k)
  | slave (event : Slave.Event m)
  | handshake (writable sockerr pong reached : Bool)
  | bulkSent
  | tick
  | deliver (tid : Fin m) (clock : Clock)

/-- An event in which the slave meets nobody. -/
def Own : Slave.Event m → Bool
  | .cron _ _ | .payload _ | .confFlush | .restart _ _ => true
  | _ => false

/-- The readiness event of the slave. -/
def ready (writable sockerr pong : Bool) (answer : Option ((k : Nat) × Server k)) : Slave.Event m :=
  if writable then .writable sockerr pong answer else .readable sockerr pong answer

/-- `CommandPsync::exec` on the master for the request of the slave, with the link it leaves. -/
def answered (fileSize : List Features → Nat) (s : Pair k m) : Pair k m :=
  let answer := s.master.commandPsync fileSize s.slave.server.psync
  { s with
    master := answer.2.2
    replica := some ⟨answer.2.1.replState, replicaLink answer.2.1.replAof⟩
    wire := [] }

/-- A master that dies takes its end of the connection with it. -/
def severed (s : Pair k m) : FirstSync.Event k → Option MasterEnd
  | .crash _ _ => none
  | _ => s.replica

/-- One event. A handshake that reaches the master runs `CommandPsync` there and the answer on
the slave, and gives the old connection up; a tick puts a message on the wire, and a delivery
takes the first one off it. -/
def step (fileSize : List Features → Nat) (parse : ParseHset) (sorting : Sorting k) (sorting' : Sorting m)
    (s : Pair k m) : Event k m → Option (Pair k m)
  | .master event =>
    (FirstSync.step parse sorting s.master event).map fun master =>
      { s with master := master, replica := s.severed event }
  | .slave event =>
    if Own event then
      (s.slave.step fileSize parse sorting' event).map fun slave => { s with slave := slave }
    else none
  | .handshake writable sockerr pong reached =>
    let answer : Option ((k : Nat) × Server k) := if reached then some ⟨k, s.master⟩ else none
    (s.slave.step fileSize parse sorting' (ready writable sockerr pong answer)).map fun slave =>
      if reached ∧ s.slave.control.Asks sockerr pong then { s.answered fileSize with slave := slave }
      else { s with slave := slave }
  | .bulkSent =>
    match s.replica with
    | some ⟨.transfor, cursor⟩ => some { s with replica := some ⟨.connected, cursor⟩ }
    | _ => none
  | .tick =>
    match s.replica with
    | some ⟨.connected, cursor⟩ =>
      (onSendIncrToSlave (aofDir 0 s.master.aofFiles) cursor).map fun sent =>
        { s with replica := some ⟨.connected, sent.1⟩, wire := s.wire ++ sent.2.toList }
    | _ => none
  | .deliver tid clock =>
    match s.wire with
    | [] => none
    | message :: wire =>
      message.multi.bind fun multi =>
        (s.slave.step fileSize parse sorting' (.multi tid clock multi)).map fun slave =>
          { s with wire := wire, slave := slave }

/-- Two servers in empty directories, the slave sent to its master. -/
def fresh (rotateAofFileSize : Nat) (runId runId' host : String) (port : Int) : Pair k m where
  master := Server.fresh rotateAofFileSize runId
  replica := none
  wire := []
  slave := (Slave.fresh rotateAofFileSize runId').slaveof host port

end Pair

/-- The number of an AOF file is read back. -/
theorem fileNumber_gen (n : Nat) (bound : n < 2 ^ 31) : fileNumber (genAofFilename n) = some n := by
  rw [fileNumber, parseFileName_gen n bound, Option.bind_some, if_pos (Int.natCast_nonneg n), Int.toNat_natCast]

/-- A recorded position with a name is a place for the cursor. -/
theorem At.boundary {files : List (List Pack)} {position : FileState} {n : Nat} (located : At files position n)
    (named : position.name ≠ none) :
    ∃ place, OnBoundary 0 files place (replicaLink position) ∧ place.index files = n := by
  obtain ⟨place, names, index⟩ := located
  obtain ⟨number, name⟩ := Option.ne_none_iff_exists'.mp named
  have segment : number = place.segment := by simpa [name] using names.name
  refine ⟨place, ⟨names.valid, ?_, names.offset⟩, index⟩
  simp [replicaLink, name, segment]

/-- The place of a cursor is a recorded position. -/
theorem OnBoundary.located {files : List (List Pack)} {place : Place} {link : ReplicaLink}
    (boundary : OnBoundary 0 files place link) (numbered : files.length < 2 ^ 31) :
    At files ⟨fileNumber link.replAofFileName, link.replAofOff⟩ (place.index files) := by
  obtain ⟨file, found, _⟩ := boundary.valid
  have bound : place.segment < files.length := (List.getElem?_eq_some_iff.mp found).1
  refine ⟨place, ⟨boundary.valid, ?_, boundary.off⟩, rfl⟩
  rw [boundary.name, Nat.zero_add, fileNumber_gen _ (Nat.lt_trans bound numbered)]
  rfl

/-- A packet that a message carries. -/
theorem carry_reframe (p : Pack) : carry p.type (cString p.body) = some (reframe p) := by
  have fits : 8 + (cString p.body).length < 2 ^ 32 := (reframe p).fits
  rw [carry, dif_pos fits]
  rfl

/-- The packets that a message carries. -/
theorem mapM_carry (packs : List Pack) :
    (packs.map fun pack => (pack.type, cString pack.body)).mapM (fun entry => carry entry.1 entry.2) =
      some (packs.map reframe) := by
  induction packs with
  | nil => rfl
  | cons pack packs ih =>
    rw [List.map_cons, List.mapM_cons, ih, carry_reframe]
    rfl

/-- What the slave reads in the message for packets. -/
theorem multi_messageFor (link : ReplicaLink) (packs : List Pack) :
    (messageFor link packs).multi =
      some ⟨packs.map reframe, ⟨fileNumber link.replAofFileName, link.replAofOff⟩⟩ := by
  have entries : (messageFor link packs).types.zip (messageFor link packs).commands =
      packs.map fun pack => (pack.type, cString pack.body) := List.zip_map' ..
  rw [CommandAof.multi, entries, mapM_carry]
  rfl

end Naruto.Replication
