import Naruto.Replication.Psync
import Naruto.Replication.SlaveState

/-!
# A slave

The whole slave side: the states of the connection, the link to the master with its
position, the configuration in memory and on disk, the database file on its way,
and the server below. The position is moved between the link and the configuration
by several handlers, and each is given here with what it does to all of these.
-/

namespace Naruto.Replication

open Naruto.Theory Naruto.Utils Naruto.Database Naruto.Command SlavePosition

variable {m : Nat}

/-- A link that a flush of the configuration records. -/
def MasterLink.Named (link : MasterLink) : Prop := link.replRunId ≠ "" ∧ link.replAof.name ≠ none

/-- Whether a link is named can be decided. -/
instance (link : MasterLink) : Decidable link.Named := inferInstanceAs (Decidable (_ ∧ _))

namespace Server

/-- What `cacheMaster` does to the configuration. -/
def cacheMaster (s : Server m) : Server m :=
  match s.master with
  | none => s
  | some link => { s with replConf := { s.replConf with masterRunId := link.replRunId, masterAof := link.replAof } }

/-- The link that `_connect_master` opens has no position yet. -/
def connectMaster (s : Server m) : Server m := { s with master := some ⟨"", ⟨none, 0⟩⟩ }

/-- Caching the link changes the position in the configuration in memory, and nothing else. -/
theorem cacheMaster_frame (s : Server m) :
    s.cacheMaster.buckets = s.buckets ∧ s.cacheMaster.backlog = s.backlog ∧ s.cacheMaster.master = s.master ∧
      s.cacheMaster.dbFile = s.dbFile ∧ s.cacheMaster.confFile = s.confFile ∧
      s.cacheMaster.replConf.dbDumpAof = s.replConf.dbDumpAof := by
  rw [cacheMaster]
  split <;> exact ⟨rfl, rfl, rfl, rfl, rfl, rfl⟩

/-- The position becomes that of the link. -/
theorem cacheMaster_link {s : Server m} {link : MasterLink} (linked : s.master = some link) :
    s.cacheMaster.replConf.masterRunId = link.replRunId ∧ s.cacheMaster.replConf.masterAof = link.replAof := by
  rw [cacheMaster, linked]
  exact ⟨rfl, rfl⟩

/-- Without a link nothing is cached. -/
theorem cacheMaster_alone {s : Server m} (alone : s.master = none) : s.cacheMaster = s := by
  rw [cacheMaster, alone]

end Server

/-- The outcome of the `psync` exchange for the state machine. -/
def PsyncReply.outcome (reply : PsyncReply) : SlaveState.PsyncOutcome :=
  match reply.psyncType with
  | .fullsync => .fullsync
  | .partsync => .partsync
  | .trysync => .failed

/-- `onSyncWithMaster` gets as far as `_slave_try_partial_resynchronization`. -/
def SlaveState.Asks (s : SlaveState) (sockerr pong : Bool) : Prop :=
  s.replState ≠ .none ∧ sockerr = false ∧ s.replState ≠ .connecting ∧ (s.replState = .receivePong → pong = true)

/-- Whether a slave asks can be decided. -/
instance (s : SlaveState) (sockerr pong : Bool) : Decidable (s.Asks sockerr pong) :=
  inferInstanceAs (Decidable (_ ∧ _))

/-- The state after a request is what its answer says. All tests before the request have gone
well. -/
theorem SlaveState.onSyncWithMaster_asks {s : SlaveState} {sockerr pong : Bool} (asks : s.Asks sockerr pong)
    (outcome : PsyncOutcome) :
    (s.onSyncWithMaster sockerr pong outcome).replState =
      match outcome with
      | .fullsync => .transfor
      | .partsync => .connected
      | .failed => .connect := by
  obtain ⟨following, socket, connecting, received⟩ := asks
  rw [onSyncWithMaster, if_neg following, socket, if_neg Bool.false_ne_true, if_neg connecting]
  by_cases waits : s.replState = .receivePong
  · rw [if_pos waits, received waits]
    cases outcome <;> rfl
  · rw [if_neg waits]
    cases outcome <;> rfl

/-- Without a request the connection goes on to wait or is given up. It waits for the `PONG`
behind the `PING`; an error on the socket and another answer end it. -/
theorem SlaveState.onSyncWithMaster_waits {s : SlaveState} {sockerr pong : Bool} (waits : ¬ s.Asks sockerr pong)
    (outcome : PsyncOutcome) (state : s.replState = .connecting ∨ s.replState = .receivePong) :
    (s.onSyncWithMaster sockerr pong outcome).replState = .connect ∨
      (s.onSyncWithMaster sockerr pong outcome).replState = .receivePong := by
  have following : s.replState ≠ .none := by
    rcases state with here | here <;> rw [here] <;> decide
  rw [onSyncWithMaster, if_neg following]
  cases sockerr with
  | true => exact Or.inl rfl
  | false =>
    rw [if_neg Bool.false_ne_true]
    by_cases connecting : s.replState = .connecting
    · rw [if_pos connecting]
      exact Or.inr rfl
    · have here := state.resolve_left connecting
      rw [if_neg connecting, if_pos here]
      cases pong with
      | true => exact absurd ⟨following, rfl, connecting, fun _ => rfl⟩ waits
      | false => exact Or.inl rfl

/-- A slave: the port of the master in `repl_conf_` and in its file, the database file
that is on its way, and whether `repl_rio` of the link is armed. -/
structure Slave (m : Nat) where
  control : SlaveState
  server : Server m
  confPort : Int
  diskPort : Int
  transfer : List Features
  replRio : Bool

namespace Slave

/-- What happens to a slave. The answer to `psync` comes from a server in some state, or
does not come. -/
inductive Event (m : Nat)
  | slaveof (host : String) (port : Int)
  | cron (transferTimeout interactionTimeout : Bool)
  | readable (sockerr pong : Bool) (answer : Option ((k : Nat) × Server k))
  | writable (sockerr pong : Bool) (answer : Option ((k : Nat) × Server k))
  | payload (result : SlaveState.Payload)
  | multi (tid : Fin m) (clock : Clock) (message : Multi)
  | confFlush
  | restart (clock : Clock) (genRandomID : String)

/-- A process started with this server: `_init`. -/
def start (server : Server m) (port : Int) : Slave m where
  control := SlaveState.init server.masterHost port
  server := server
  confPort := port
  diskPort := port
  transfer := []
  replRio := false

/-- A process started in an empty directory: it has no master yet. -/
def fresh (rotateAofFileSize : Nat) (runId : String) : Slave m := start (Server.fresh rotateAofFileSize runId) 0

/-- The port that a flush of the configuration writes. -/
def flushedPort (s : Slave m) : Int :=
  match s.server.master with
  | some link => if link.Named then s.control.masterPort else s.confPort
  | none => s.confPort

/-- `replConfFlush`. -/
def replConfFlush (s : Slave m) : Slave m :=
  { s with server := s.server.replConfFlush, confPort := s.flushedPort, diskPort := s.flushedPort }

/-- `_merge_backlog_feed_slaves`: a merge that writes something flushes the configuration. -/
def merge (sorting : Sorting m) (s : Slave m) : Slave m :=
  if (s.server.backlog.mergeBacklogFeedSlaves sorting).2 then
    { s with server := s.server.merge sorting, confPort := s.flushedPort, diskPort := s.flushedPort }
  else { s with server := s.server.merge sorting }

/-- The first two tests of `onReplCron`, which leave the link open. -/
def dropLate (s : Slave m) (transferTimeout : Bool) : Slave m :=
  { s with control := (s.control.undoLate transferTimeout).abortLate transferTimeout }

/-- The third test: the link is closed, and its position cached. -/
def cacheLate (s : Slave m) (interactionTimeout : Bool) : Slave m :=
  if s.control.replState = .connected ∧ interactionTimeout then
    { s with control := s.control.cacheMaster, server := s.server.cacheMaster, replRio := false }
  else s

/-- The fourth test: a new link takes the place of the old one. -/
def connectAnew (s : Slave m) : Slave m :=
  if s.control.replState = .connect then
    { s with control := s.control.connectMaster, server := s.server.connectMaster, replRio := false }
  else s

/-- The part of `onReplCron` for a slave, before the merge. -/
def followCron (s : Slave m) (transferTimeout interactionTimeout : Bool) : Slave m :=
  if s.control.masterHost = "" then s
  else ((s.dropLate transferTimeout).cacheLate interactionTimeout).connectAnew

/-- `onReplCron`. -/
def onReplCron (sorting : Sorting m) (s : Slave m) (transferTimeout interactionTimeout : Bool) : Slave m :=
  (s.followCron transferTimeout interactionTimeout).merge sorting

/-- The answer to the request of this slave. -/
def reply (fileSize : List Features → Nat) (s : Slave m) (answer : Option ((k : Nat) × Server k)) :
    Option PsyncReply :=
  answer.map fun master => (master.2.commandPsync fileSize s.server.psync).1

/-- What the state machine is told of the answer. -/
def outcome (fileSize : List Features → Nat) (s : Slave m) (answer : Option ((k : Nat) × Server k)) :
    SlaveState.PsyncOutcome :=
  match s.reply fileSize answer with
  | none => .failed
  | some reply => reply.outcome

/-- `_slave_try_partial_resynchronization` with its answer. `FULLSYNC` announces the
database file of the server that answers; `PARTSYNC` starts to read the link; without
a position from the server the link is closed. -/
def slaveTryPartialResynchronization (fileSize : List Features → Nat) (s : Slave m)
    (answer : Option ((k : Nat) × Server k)) : Slave m :=
  match answer with
  | none => { s with replRio := false }
  | some master =>
    let reply := (master.2.commandPsync fileSize s.server.psync).1
    match reply.psyncType with
    | .fullsync => { s with server := s.server.follow reply, transfer := master.2.dbFile.getD [] }
    | .partsync => { s with server := s.server.follow reply, replRio := true }
    | .trysync => { s with replRio := false }

/-- `onSyncWithMaster`. When it does not ask, the link is closed or was not read yet. -/
def onSyncWithMaster (fileSize : List Features → Nat) (s : Slave m) (sockerr pong : Bool)
    (answer : Option ((k : Nat) × Server k)) : Slave m :=
  let control := s.control.onSyncWithMaster sockerr pong (s.outcome fileSize answer)
  if s.control.Asks sockerr pong then { s.slaveTryPartialResynchronization fileSize answer with control := control }
  else { s with control := control, replRio := false }

/-- `onReadSyncBulkPayload`: the whole file replaces the database file and the store, and
the link is read from then on. -/
def onReadSyncBulkPayload (s : Slave m) (result : SlaveState.Payload) : Slave m :=
  let control := s.control.onReadSyncBulkPayload result
  match result with
  | .last true => { s with control := control, server := s.server.loadReceived s.transfer, replRio := true }
  | _ => { s with control := control }

/-- `CommandSlaveof::exec`. -/
def slaveof (s : Slave m) (host : String) (port : Int) : Slave m :=
  { s with control := s.control.slaveof host port, server := { s.server with masterHost := host } }

/-- A handler runs while its watcher is armed. -/
def Enabled (s : Slave m) : Event m → Prop
  | .readable _ _ _ => s.control.replEvIoR = some .onSyncWithMaster
  | .writable _ _ _ => s.control.replEvIoW = true
  | .payload _ => s.control.replEvIoR = some .onReadSyncBulkPayload
  | .multi _ _ _ => s.replRio = true
  | .slaveof _ _ | .cron _ _ | .confFlush | .restart _ _ => True

/-- Whether an event is enabled can be decided, by the callback it belongs to. -/
instance (s : Slave m) : ∀ event, Decidable (s.Enabled event)
  | .readable _ _ _ => inferInstanceAs (Decidable (s.control.replEvIoR = some .onSyncWithMaster))
  | .writable _ _ _ => inferInstanceAs (Decidable (s.control.replEvIoW = true))
  | .payload _ => inferInstanceAs (Decidable (s.control.replEvIoR = some .onReadSyncBulkPayload))
  | .multi _ _ _ => inferInstanceAs (Decidable (s.replRio = true))
  | .slaveof _ _ | .cron _ _ | .confFlush | .restart _ _ => isTrue trivial

/-- What the event does. The control part moves as the state machine of the slave does, and the
server with it. -/
def handle (fileSize : List Features → Nat) (parse : ParseHset) (sorting : Sorting m) (s : Slave m) :
    Event m → Option (Slave m)
  | .slaveof host port => some (s.slaveof host port)
  | .cron transferTimeout interactionTimeout => some (s.onReplCron sorting transferTimeout interactionTimeout)
  | .readable sockerr pong answer => some (s.onSyncWithMaster fileSize sockerr pong answer)
  | .writable sockerr pong answer => some (s.onSyncWithMaster fileSize sockerr pong answer)
  | .payload result => some (s.onReadSyncBulkPayload result)
  | .multi tid clock message =>
    (s.server.commandAof parse clock tid message).map fun server => { s with server := server }
  | .confFlush => some s.replConfFlush
  | .restart clock genRandomID => (s.server.init parse clock genRandomID).map fun server => start server s.diskPort

/-- One event. Nothing happens any more when an assertion has failed. -/
def step (fileSize : List Features → Nat) (parse : ParseHset) (sorting : Sorting m) (s : Slave m) (event : Event m) :
    Option (Slave m) :=
  if s.control.asserted = false ∧ s.Enabled event then s.handle fileSize parse sorting event else none

/-- The state machine sees the event so, unless it does not concern it. -/
def Event.control (fileSize : List Features → Nat) (s : Slave m) : Event m → Option SlaveState.Event
  | .slaveof host port => some (.slaveof host port)
  | .cron transferTimeout interactionTimeout => some (.cron transferTimeout interactionTimeout)
  | .readable sockerr pong answer => some (.readable sockerr pong (s.outcome fileSize answer))
  | .writable sockerr pong answer => some (.writable sockerr pong (s.outcome fileSize answer))
  | .payload result => some (.payload result)
  | .multi _ _ _ | .confFlush | .restart _ _ => none

section Control

variable {fileSize : List Features → Nat} {parse : ParseHset} {sorting : Sorting m} {s s' : Slave m}

/-- A merge changes nothing that decides which callbacks come, -/
@[simp] theorem merge_control (sorting : Sorting m) (s : Slave m) : (s.merge sorting).control = s.control := by
  rw [merge]
  split <;> rfl

/-- and is the merge of the slave's server. -/
@[simp] theorem merge_server (sorting : Sorting m) (s : Slave m) :
    (s.merge sorting).server = s.server.merge sorting := by
  rw [merge]
  split <;> rfl

/-- The tick of a slave is the tick of its state machine. What the parts of a tick do to the
server is no matter for the state. -/
theorem onReplCron_control (sorting : Sorting m) (s : Slave m) (transferTimeout interactionTimeout : Bool) :
    (s.onReplCron sorting transferTimeout interactionTimeout).control =
      s.control.onReplCron transferTimeout interactionTimeout := by
  have cached : ∀ s : Slave m, (s.cacheLate interactionTimeout).control = s.control.cacheLate interactionTimeout := by
    intro s
    rw [cacheLate, SlaveState.cacheLate]
    split <;> rfl
  have connected : ∀ s : Slave m, s.connectAnew.control = s.control.connectAnew := by
    intro s
    rw [connectAnew, SlaveState.connectAnew]
    split <;> rfl
  rw [onReplCron, merge_control, followCron, SlaveState.onReplCron]
  split
  · rfl
  · rw [connected, cached]
    rfl

/-- The handshake of a slave is the handshake of its state machine. -/
theorem onSyncWithMaster_control (s : Slave m) (sockerr pong : Bool) (answer : Option ((k : Nat) × Server k)) :
    (s.onSyncWithMaster fileSize sockerr pong answer).control =
      s.control.onSyncWithMaster sockerr pong (s.outcome fileSize answer) := by
  rw [onSyncWithMaster]
  dsimp only
  split <;> rfl

/-- The transfer of a slave is the transfer of its state machine. -/
theorem onReadSyncBulkPayload_control (s : Slave m) (result : SlaveState.Payload) :
    (s.onReadSyncBulkPayload result).control = s.control.onReadSyncBulkPayload result := by
  unfold onReadSyncBulkPayload
  dsimp only
  split <;> rfl

/-- A step is an event that was enabled. -/
theorem step_handle {event : Event m} (stepped : step fileSize parse sorting s event = some s') :
    s.control.asserted = false ∧ s.Enabled event ∧ s.handle fileSize parse sorting event = some s' := by
  rw [step] at stepped
  split at stepped
  · rename_i enabled
    exact ⟨enabled.1, enabled.2, stepped⟩
  · cases stepped

/-- The state machine of a slave makes a step of its own with every event that concerns it. The
cases are the events in turn; a message and a flush do not concern the machine. -/
theorem step_control {event : Event m} {seen : SlaveState.Event} (concerns : event.control fileSize s = some seen)
    (stepped : step fileSize parse sorting s event = some s') : SlaveState.step s.control seen = some s'.control := by
  obtain ⟨asserted, enabled, handled⟩ := step_handle stepped
  have steps : ∀ seen : SlaveState.Event, s.control.Enabled seen → s'.control = s.control.handle seen →
      SlaveState.step s.control seen = some s'.control := by
    intro seen enabled same
    rw [SlaveState.step, if_pos ⟨asserted, enabled⟩, same]
  cases event with
  | slaveof host port =>
    obtain rfl := Option.some.inj concerns
    obtain rfl := Option.some.inj handled
    exact steps _ trivial rfl
  | cron transferTimeout interactionTimeout =>
    obtain rfl := Option.some.inj concerns
    obtain rfl := Option.some.inj handled
    exact steps _ trivial (onReplCron_control sorting s transferTimeout interactionTimeout)
  | readable sockerr pong answer =>
    obtain rfl := Option.some.inj concerns
    obtain rfl := Option.some.inj handled
    exact steps _ enabled (onSyncWithMaster_control s sockerr pong answer)
  | writable sockerr pong answer =>
    obtain rfl := Option.some.inj concerns
    obtain rfl := Option.some.inj handled
    exact steps _ enabled (onSyncWithMaster_control s sockerr pong answer)
  | payload result =>
    obtain rfl := Option.some.inj concerns
    obtain rfl := Option.some.inj handled
    exact steps _ enabled (onReadSyncBulkPayload_control s result)
  | multi tid clock message => cases concerns
  | confFlush => cases concerns
  | restart clock genRandomID => cases concerns

/-- An event that is enabled while the watchers belong to the state keeps the invariant of the
state machine: it runs in its place there, or does not concern it, or starts it anew. -/
theorem step_inv {event : Event m} (inv : SlaveState.Inv s.control) (armed : SlaveState.Armed s.control)
    (stepped : step fileSize parse sorting s event = some s') : SlaveState.Inv s'.control := by
  have seen : ∀ seen, event.control fileSize s = some seen → SlaveState.Inv s'.control := by
    intro seen concerns
    obtain ⟨enabled, same⟩ := SlaveState.step_handle (step_control concerns stepped)
    rw [same]
    exact inv.handle (armed.inPlace enabled)
  have handled := (step_handle stepped).2.2
  cases event with
  | slaveof host port => exact seen _ rfl
  | cron transferTimeout interactionTimeout => exact seen _ rfl
  | readable sockerr pong answer => exact seen _ rfl
  | writable sockerr pong answer => exact seen _ rfl
  | payload result => exact seen _ rfl
  | multi tid clock message =>
    obtain ⟨server, _, rfl⟩ := Option.map_eq_some_iff.mp handled
    exact inv
  | confFlush =>
    obtain rfl := Option.some.inj handled
    exact inv
  | restart clock genRandomID =>
    obtain ⟨server, _, rfl⟩ := Option.map_eq_some_iff.mp handled
    exact SlaveState.Inv.init _ _

end Control

end Slave

end Naruto.Replication
