import Naruto.Replication.Slave
import Naruto.Theory.Runs

/-!
# The origin of a position

The files of all servers have the same names, so a position means something only to
the server it came from. A slave keeps the identifier of that server beside the
position and sends both. The server that is asked does not compare the identifier
with its own: when its file reaches far enough it takes the position for one of its
own, and answers with its own identifier. As long as a request reaches only the
server it names, or one that cannot serve the position, every position that a slave
records comes from the server it is recorded for.
-/

namespace Naruto.Replication

open Naruto.Theory Naruto.Utils Naruto.Sink Naruto.Database Naruto.Command SlavePosition

variable {k m : Nat}

/-- The request supplies a position. -/
def Psync.Supplies (psync : Psync) : Prop := psync.runId ≠ "?" ∧ psync.replAof.name ≠ none

/-- Whether an answer supplies a position can be decided. -/
instance (psync : Psync) : Decidable psync.Supplies := inferInstanceAs (Decidable (_ ∧ _))

namespace Server

/-- The file of the position exists and is at least as long as its offset. -/
def Reaches (s : Server k) (position : FileState) : Prop :=
  (position.name.bind s.aofSize).any fun size => position.offset ≤ size

/-- Whether a server's AOF reaches a position can be decided. -/
instance (s : Server k) (position : FileState) : Decidable (s.Reaches position) :=
  inferInstanceAs (Decidable (_ = true))

/-- The position is answered with `PARTSYNC` only to a request that names this server,
and only when the file reaches that far. -/
def Grants (fileSize : List Features → Nat) (s : Server k) (psync : Psync) : Prop :=
  psync.Supplies → (s.commandPsync fileSize psync).1.psyncType = .partsync →
    psync.runId = s.replConf.runId ∧ s.Reaches psync.replAof

/-- The request names this server, supplies no position, or supplies one that this
server does not reach. -/
def Addressed (s : Server k) (psync : Psync) : Prop :=
  psync.runId = s.replConf.runId ∨ ¬ psync.Supplies ∨ ¬ s.Reaches psync.replAof

/-- Whether a request is addressed to a server can be decided. -/
instance (s : Server k) (psync : Psync) : Decidable (s.Addressed psync) :=
  inferInstanceAs (Decidable (_ ∨ _ ∨ _))

/-- A supplied position that is reached is answered as it is. The other answers are for a
position that is missing, or beyond its file, or in a file that is not there. -/
theorem syncCase_part {s : Server k} {psync : Psync} :
    s.syncCase psync = .part ↔ psync.Supplies ∧ s.Reaches psync.replAof := by
  rw [syncCase, Psync.Supplies, Reaches]
  by_cases unsupplied : psync.runId = "?" ∨ psync.replAof.name = none
  · rw [if_pos unsupplied]
    constructor
    · split <;> exact fun impossible => by cases impossible
    · rintro ⟨⟨known, named⟩, _⟩
      exact absurd unsupplied (not_or.mpr ⟨known, named⟩)
  · rw [if_neg unsupplied]
    cases psync.replAof.name.bind s.aofSize with
    | none =>
      constructor
      · exact fun impossible => by cases impossible
      · exact fun both => by cases both.2
    | some size =>
      dsimp only
      split
      · rename_i short
        constructor
        · exact fun impossible => by cases impossible
        · rintro ⟨_, reached⟩
          exact absurd (of_decide_eq_true reached) (Nat.not_le.mpr short)
      · rename_i long
        constructor
        · intro _
          exact ⟨not_or.mp unsupplied, decide_eq_true (Nat.not_lt.mp long)⟩
        · exact fun _ => rfl

/-- A supplied position is answered with `PARTSYNC` exactly when it is reached. The other
`PARTSYNC` is for a request without a position. -/
theorem commandPsync_partsync (fileSize : List Features → Nat) {s : Server k} {psync : Psync}
    (supplies : psync.Supplies) :
    (s.commandPsync fileSize psync).1.psyncType = .partsync ↔ s.Reaches psync.replAof := by
  constructor
  · intro partsync
    have part : s.syncCase psync = .part := by
      rw [commandPsync] at partsync
      cases case : s.syncCase psync with
      | first =>
        rw [syncCase, if_neg (not_or.mpr supplies)] at case
        split at case
        · cases case
        · split at case <;> cases case
      | full =>
        rw [case] at partsync
        dsimp only at partsync
        split at partsync <;> cases partsync
      | part => rfl
    exact (syncCase_part.mp part).2
  · intro reaches
    rw [commandPsync, syncCase_part.mpr ⟨supplies, reaches⟩]

/-- Every answer carries the identifier of the server that gives it. -/
theorem commandPsync_runId (fileSize : List Features → Nat) (s : Server k) (psync : Psync) :
    (s.commandPsync fileSize psync).1.runId = s.replConf.runId := by
  unfold commandPsync
  split
  · rfl
  · split <;> rfl
  · rfl

/-- For every server and request: the position is granted rightly exactly when the
request is addressed rightly. -/
theorem grants_iff (fileSize : List Features → Nat) (s : Server k) (psync : Psync) :
    s.Grants fileSize psync ↔ s.Addressed psync := by
  constructor
  · intro grants
    by_cases both : psync.Supplies ∧ s.Reaches psync.replAof
    · exact Or.inl (grants both.1 ((commandPsync_partsync fileSize both.1).mpr both.2)).1
    · exact Or.inr (not_and_or.mp both)
  · intro addressed supplies partsync
    have reaches := (commandPsync_partsync fileSize supplies).mp partsync
    rcases addressed with named | unsupplied | unreached
    · exact ⟨named, reaches⟩
    · exact absurd supplies unsupplied
    · exact absurd reaches unreached

end Server

namespace Slave

/-- The servers that the positions of a slave come from: the position in `repl_conf_`, the
one of the link, and the one on disk. -/
structure Origins where
  memory : String
  link : String
  disk : String
deriving DecidableEq, Repr

/-- The position of the link is cached. -/
def Origins.cacheMaster (origins : Origins) (s : Slave m) : Origins :=
  if s.server.master = none then origins else { origins with memory := origins.link }

/-- A new link has no position. -/
def Origins.connectMaster (origins : Origins) : Origins := { origins with link := "" }

/-- The position of the link, when it has one, is written to the file. -/
def Origins.flush (origins : Origins) (s : Slave m) : Origins :=
  match s.server.master with
  | some link =>
    if link.Named then ⟨origins.link, origins.link, origins.link⟩
    else ⟨origins.memory, origins.link, origins.memory⟩
  | none => ⟨origins.memory, origins.link, origins.memory⟩

/-- The two tests of a tick that change a position. -/
def Origins.followCron (origins : Origins) (s : Slave m) (transferTimeout interactionTimeout : Bool) : Origins :=
  if s.control.masterHost = "" then origins
  else
    let late := s.dropLate transferTimeout
    let cached := if late.control.replState = .connected ∧ interactionTimeout then origins.cacheMaster late else origins
    if (late.cacheLate interactionTimeout).control.replState = .connect then cached.connectMaster else cached

/-- A tick, with its merge. -/
def Origins.onReplCron (sorting : Sorting m) (origins : Origins) (s : Slave m)
    (transferTimeout interactionTimeout : Bool) : Origins :=
  let followed := s.followCron transferTimeout interactionTimeout
  if (followed.server.backlog.mergeBacklogFeedSlaves sorting).2 then
    (origins.followCron s transferTimeout interactionTimeout).flush followed
  else origins.followCron s transferTimeout interactionTimeout

/-- An answer to `psync`. A position that is only echoed comes from where the request has
it from; the others come from the server that answers. -/
def Origins.answered (fileSize : List Features → Nat) (origins : Origins) (s : Slave m)
    (answer : Option ((k : Nat) × Server k)) : Origins :=
  match answer with
  | none => origins
  | some master =>
    match (master.2.commandPsync fileSize s.server.psync).1.psyncType with
    | .trysync => origins
    | .fullsync | .partsync =>
      match master.2.syncCase s.server.psync with
      | .part => { origins with link := origins.memory }
      | .first | .full => { origins with memory := master.2.replConf.runId, link := master.2.replConf.runId }

/-- What an event does to the origins. -/
def Origins.handle (fileSize : List Features → Nat) (sorting : Sorting m) (origins : Origins) (s : Slave m) :
    Event m → Origins
  | .cron transferTimeout interactionTimeout => origins.onReplCron sorting s transferTimeout interactionTimeout
  | .readable sockerr pong answer | .writable sockerr pong answer =>
    if s.control.Asks sockerr pong then origins.answered fileSize s answer else origins
  | .confFlush => origins.flush s
  | .restart _ _ => ⟨origins.disk, "", origins.disk⟩
  | .slaveof _ _ | .payload _ | .multi _ _ _ => origins

/-- A step of a slave together with the origins of its positions. -/
def track (fileSize : List Features → Nat) (parse : ParseHset) (sorting : Sorting m) (tracked : Slave m × Origins)
    (event : Event m) : Option (Slave m × Origins) :=
  (step fileSize parse sorting tracked.1 event).map fun s => (s, tracked.2.handle fileSize sorting tracked.1 event)

/-- A request that is sent is addressed rightly. -/
def AsksAddressed (tracked : Slave m × Origins) : Event m → Prop
  | .readable sockerr pong answer | .writable sockerr pong answer =>
    tracked.1.control.Asks sockerr pong → ∀ master ∈ answer, master.2.Addressed tracked.1.server.psync
  | _ => True

/-- Whether an event asks the server it should can be decided. -/
instance (tracked : Slave m × Origins) : ∀ event, Decidable (AsksAddressed tracked event)
  | .readable _ _ _ | .writable _ _ _ => by unfold AsksAddressed; infer_instance
  | .slaveof _ _ | .cron _ _ | .payload _ | .multi _ _ _ | .confFlush | .restart _ _ => isTrue trivial

/-- Every position comes from the server it is recorded for. -/
structure Recorded (s : Slave m) (origins : Origins) : Prop where
  memory : origins.memory = s.server.replConf.masterRunId
  link : ∀ link, s.server.master = some link → origins.link = link.replRunId
  disk : origins.disk = s.server.diskConf.masterRunId

section Recorded

variable {fileSize : List Features → Nat} {parse : ParseHset} {sorting : Sorting m} {s s' : Slave m}
  {origins : Origins}

/-- A handler that leaves positions and their servers as they are. -/
theorem Recorded.frame (recorded : Recorded s origins) (conf : s'.server.replConf = s.server.replConf)
    (master : s'.server.master = s.server.master) (disk : s'.server.confFile = s.server.confFile) :
    Recorded s' origins where
  memory := by
    rw [conf]
    exact recorded.memory
  link := by
    rw [master]
    exact recorded.link
  disk := by
    rw [Server.diskConf, disk]
    exact recorded.disk

/-- The position of the link is cached with the server it comes from. Without a link nothing
changes. -/
theorem Recorded.cacheMaster (recorded : Recorded s origins) (server : s'.server = s.server.cacheMaster) :
    Recorded s' (origins.cacheMaster s) := by
  obtain ⟨_, _, master, _, disk, _⟩ := s.server.cacheMaster_frame
  rw [← server] at master disk
  cases linked : s.server.master with
  | none =>
    rw [Origins.cacheMaster, if_pos linked]
    rw [Server.cacheMaster_alone linked] at server
    exact recorded.frame (congrArg Server.replConf server) master disk
  | some link =>
    rw [Origins.cacheMaster, if_neg (linked ▸ Option.some_ne_none link)]
    have conf := (Server.cacheMaster_link linked).1
    rw [← server] at conf
    constructor
    · rw [conf]
      exact recorded.link link linked
    · rw [master]
      exact recorded.link
    · rw [Server.diskConf, disk]
      exact recorded.disk

/-- A new link has neither. -/
theorem Recorded.connectMaster (recorded : Recorded s origins) (server : s'.server = s.server.connectMaster) :
    Recorded s' origins.connectMaster := by
  constructor
  · rw [server]
    exact recorded.memory
  · intro link linked
    rw [server] at linked
    exact congrArg MasterLink.replRunId (Option.some.inj linked)
  · rw [server]
    exact recorded.disk

/-- A flush writes the position of the link, when it has one, with the server it comes from. A
flush with a link writes the link's run id with its position; one without writes what memory
has cached. -/
theorem Recorded.flush (recorded : Recorded s origins) (server : s'.server = s.server.replConfFlush) :
    Recorded s' (origins.flush s) := by
  have master : s'.server.master = s.server.master := by
    rw [server]
    exact s.server.replConfFlush_frame.2.2.1
  have disk : s'.server.diskConf = s'.server.replConf := by
    rw [server]
    exact s.server.replConfFlush_frame.2.2.2.2.2.2
  rw [Origins.flush]
  have unnamed : (∀ link, s.server.master = some link → ¬ link.Named) →
      Recorded s' ⟨origins.memory, origins.link, origins.memory⟩ := by
    intro unnamed
    have conf : s'.server.replConf = s.server.replConf := by
      rw [server]
      exact Server.replConfFlush_alone unnamed
    constructor
    · rw [conf]
      exact recorded.memory
    · rw [master]
      exact recorded.link
    · rw [disk, conf]
      exact recorded.memory
  cases linked : s.server.master with
  | none => exact unnamed (fun link some => by cases linked.symm.trans some)
  | some link =>
    by_cases named : link.Named
    · have conf : s'.server.replConf.masterRunId = link.replRunId := by
        rw [server]
        exact (Server.replConfFlush_link linked named).1
      simp only [if_pos named]
      constructor
      · rw [conf]
        exact recorded.link link linked
      · rw [master]
        exact recorded.link
      · rw [disk, conf]
        exact recorded.link link linked
    · simp only [if_neg named]
      apply unnamed
      intro other same
      obtain rfl := Option.some.inj (linked.symm.trans same)
      exact named

/-- A tick, before its merge. It may drop a late transfer, which moves no position; cache the
link's position; and connect anew, without one. -/
theorem Recorded.followCron (recorded : Recorded s origins) (transferTimeout interactionTimeout : Bool) :
    Recorded (s.followCron transferTimeout interactionTimeout)
      (origins.followCron s transferTimeout interactionTimeout) := by
  rw [Slave.followCron, Origins.followCron]
  split
  · exact recorded
  · dsimp only
    have late : Recorded (s.dropLate transferTimeout) origins := recorded.frame rfl rfl rfl
    have cached : Recorded ((s.dropLate transferTimeout).cacheLate interactionTimeout)
        (if (s.dropLate transferTimeout).control.replState = .connected ∧ interactionTimeout = true then
          origins.cacheMaster (s.dropLate transferTimeout) else origins) := by
      rw [cacheLate]
      split
      · exact late.cacheMaster rfl
      · exact late
    rw [connectAnew]
    split
    · exact cached.connectMaster rfl
    · exact cached

/-- A tick. Its merge flushes the configuration when it has merged something. -/
theorem Recorded.onReplCron (recorded : Recorded s origins) (sorting : Sorting m)
    (transferTimeout interactionTimeout : Bool) :
    Recorded (s.onReplCron sorting transferTimeout interactionTimeout)
      (origins.onReplCron sorting s transferTimeout interactionTimeout) := by
  have followed := recorded.followCron transferTimeout interactionTimeout
  have merged : ∀ {s : Slave m} {origins : Origins}, Recorded s origins → Recorded (s.merge sorting)
      (if (s.server.backlog.mergeBacklogFeedSlaves sorting).2 then origins.flush s else origins) := by
    intro s origins recorded
    by_cases flushed : (s.server.backlog.mergeBacklogFeedSlaves sorting).2 = true
    · have server : (s.merge sorting).server =
          ({ s.server with backlog := (s.server.backlog.mergeBacklogFeedSlaves sorting).1 } : Server m).replConfFlush := by
        rw [merge_server, Server.merge]
        exact if_pos flushed
      rw [if_pos flushed]
      have same : Recorded { s with server.backlog := (s.server.backlog.mergeBacklogFeedSlaves sorting).1 } origins :=
        recorded.frame rfl rfl rfl
      exact same.flush server
    · have server : (s.merge sorting).server =
          { s.server with backlog := (s.server.backlog.mergeBacklogFeedSlaves sorting).1 } := by
        rw [merge_server, Server.merge]
        exact if_neg flushed
      rw [if_neg flushed]
      have same : Recorded { s with server.backlog := (s.server.backlog.mergeBacklogFeedSlaves sorting).1 } origins :=
        recorded.frame rfl rfl rfl
      exact same.frame (congrArg Server.replConf server) (congrArg Server.master server)
        (congrArg Server.confFile server)
  exact merged followed

/-- The link and the configuration take position and server from the reply. -/
theorem Recorded.follow (recorded : Recorded s origins) {reply : PsyncReply} (server : s'.server = s.server.follow reply) :
    Recorded s' { origins with memory := reply.runId, link := reply.runId } := by
  constructor
  · rw [server]
    rfl
  · intro link linked
    rw [server] at linked
    exact congrArg MasterLink.replRunId (Option.some.inj linked)
  · rw [server]
    exact recorded.disk

/-- The answer to a request that is addressed rightly: a position that is echoed comes from the
server that answers, too. By cases on the answer: `FULLSYNC` brings a position of the answering
server, and `PARTSYNC` the one that the request has named with this server. -/
theorem Recorded.answered (recorded : Recorded s origins) (answer : Option ((k : Nat) × Server k))
    (addressed : ∀ master ∈ answer, master.2.Addressed s.server.psync)
    (server : s'.server = (s.slaveTryPartialResynchronization fileSize answer).server) :
    Recorded s' (origins.answered fileSize s answer) := by
  cases answer with
  | none =>
    exact recorded.frame (congrArg Server.replConf server) (congrArg Server.master server)
      (congrArg Server.confFile server)
  | some master =>
    have echoed : master.2.syncCase s.server.psync = .part → origins.memory = master.2.replConf.runId := by
      intro part
      obtain ⟨supplies, reaches⟩ := Server.syncCase_part.mp part
      have cached : Cached s.server.replConf := by
        by_contra uncached
        rw [Server.psync, if_neg uncached] at supplies
        exact supplies.1 rfl
      have named : s.server.psync.runId = master.2.replConf.runId :=
        (addressed master rfl).resolve_right (not_or.mpr ⟨not_not.mpr supplies, not_not.mpr reaches⟩)
      rw [Server.psync, if_pos cached] at named
      exact recorded.memory.trans named
    have runId := Server.commandPsync_runId fileSize master.2 s.server.psync
    have followed : s'.server = s.server.follow (master.2.commandPsync fileSize s.server.psync).1 →
        Recorded s' (match master.2.syncCase s.server.psync with
          | .part => { origins with link := origins.memory }
          | .first | .full => { origins with memory := master.2.replConf.runId, link := master.2.replConf.runId }) := by
      intro server
      have recorded' := recorded.follow server
      rw [runId] at recorded'
      cases case : master.2.syncCase s.server.psync with
      | part =>
        dsimp only
        rw [← echoed case] at recorded'
        exact recorded'
      | first => exact recorded'
      | full => exact recorded'
    rw [slaveTryPartialResynchronization] at server
    rw [Origins.answered]
    cases type : (master.2.commandPsync fileSize s.server.psync).1.psyncType with
    | trysync =>
      rw [type] at server
      exact recorded.frame (congrArg Server.replConf server) (congrArg Server.master server)
        (congrArg Server.confFile server)
    | fullsync =>
      rw [type] at server
      exact followed server
    | partsync =>
      rw [type] at server
      exact followed server

/-- A callback of the link to the master. Only one that asks gets an answer. -/
theorem Recorded.onSyncWithMaster (recorded : Recorded s origins) {sockerr pong : Bool}
    {answer : Option ((k : Nat) × Server k)}
    (addressed : s.control.Asks sockerr pong → ∀ master ∈ answer, master.2.Addressed s.server.psync) :
    Recorded (s.onSyncWithMaster fileSize sockerr pong answer)
      (if s.control.Asks sockerr pong then origins.answered fileSize s answer else origins) := by
  rw [Slave.onSyncWithMaster]
  dsimp only
  by_cases asks : s.control.Asks sockerr pong
  · rw [if_pos asks, if_pos asks]
    exact recorded.answered answer (addressed asks) rfl
  · rw [if_neg asks, if_neg asks]
    exact recorded.frame rfl rfl rfl

/-- A message of the AOF moves the position of the link, and leaves its server. Nothing is
recorded in it, in memory or on disk. -/
theorem Recorded.commandAof (recorded : Recorded s origins) {tid : Fin m} {clock : Clock} {message : Multi}
    {server : Server m} (executed : s.server.commandAof parse clock tid message = some server) :
    Recorded { s with server := server } origins := by
  obtain ⟨fed, master⟩ := Server.commandAof_spec executed
  have same := fed.same
  constructor
  · rw [same]
    exact recorded.memory
  · intro link linked
    rw [master] at linked
    obtain ⟨before, linked', rfl⟩ := Option.map_eq_some_iff.mp linked
    exact recorded.link before linked'
  · rw [Server.diskConf, same]
    exact recorded.disk

/-- Every event keeps the origins, when requests are addressed rightly. One lemma for each
event; only the answer to a request brings a position from elsewhere. -/
theorem Recorded.step (recorded : Recorded s origins) {event : Event m} (addressed : AsksAddressed (s, origins) event)
    (stepped : step fileSize parse sorting s event = some s') :
    Recorded s' (origins.handle fileSize sorting s event) := by
  obtain ⟨_, _, handled⟩ := step_handle stepped
  cases event with
  | slaveof host port =>
    obtain rfl := Option.some.inj handled
    exact recorded.frame rfl rfl rfl
  | cron transferTimeout interactionTimeout =>
    obtain rfl := Option.some.inj handled
    exact recorded.onReplCron sorting transferTimeout interactionTimeout
  | readable sockerr pong answer =>
    obtain rfl := Option.some.inj handled
    exact recorded.onSyncWithMaster addressed
  | writable sockerr pong answer =>
    obtain rfl := Option.some.inj handled
    exact recorded.onSyncWithMaster addressed
  | payload result =>
    obtain rfl := Option.some.inj handled
    unfold onReadSyncBulkPayload
    dsimp only
    split
    · exact recorded.frame rfl rfl rfl
    · exact recorded.frame rfl rfl rfl
  | multi tid clock message =>
    obtain ⟨server, executed, rfl⟩ := Option.map_eq_some_iff.mp handled
    exact recorded.commandAof executed
  | confFlush =>
    obtain rfl := Option.some.inj handled
    exact recorded.flush rfl
  | restart clock genRandomID =>
    obtain ⟨server, started, rfl⟩ := Option.map_eq_some_iff.mp handled
    obtain ⟨_, _, conf, master, _, _, confFile⟩ := Server.init_spec started
    constructor
    · change origins.disk = server.replConf.masterRunId
      rw [conf]
      exact recorded.disk
    · intro link linked
      cases master.symm.trans linked
    · change origins.disk = server.diskConf.masterRunId
      rw [Server.diskConf, confFile]
      exact recorded.disk

end Recorded

/-- A position is granted to a request exactly when the request is addressed rightly; and in
every run whose requests all are, a slave is never connected to a server with a position of
another one.

Proof: the run is traced with the server that each position of the slave came from, in memory,
in the link and in the cached configuration. The invariant says that these are the servers the
slave names with them. Only an answer makes a position of another server, and the rightly
addressed requests are those whose answer comes from the server they name. -/
theorem connected_origin (fileSize : List Features → Nat) (parse : ParseHset) (sorting : Sorting m) :
    (∀ (k : Nat) (server : Server k) (psync : Psync), server.Grants fileSize psync ↔ server.Addressed psync) ∧
      ∀ (rotateAofFileSize : Nat) (runId : String) (events : List (Event m)) (s : Slave m) (origins : Origins),
        run (track fileSize parse sorting) (fresh rotateAofFileSize runId, ⟨"", "", ""⟩) events = some (s, origins) →
        Along (track fileSize parse sorting) AsksAddressed (fresh rotateAofFileSize runId, ⟨"", "", ""⟩) events →
        s.control.replState = .connected → ∀ link, s.server.master = some link → origins.link = link.replRunId := by
  constructor
  · exact fun k server psync => Server.grants_iff fileSize server psync
  · intro rotateAofFileSize runId events s origins ran addressed _
    have preserved : ∀ (tracked : Slave m × Origins) (event : Event m) (tracked' : Slave m × Origins),
        Recorded tracked.1 tracked.2 → AsksAddressed tracked event →
        track fileSize parse sorting tracked event = some tracked' → Recorded tracked'.1 tracked'.2 := by
      rintro ⟨s, origins⟩ event tracked' recorded addressed stepped
      obtain ⟨s', stepped', rfl⟩ := Option.map_eq_some_iff.mp stepped
      exact recorded.step addressed stepped'
    have started : Recorded (fresh rotateAofFileSize runId : Slave m) ⟨"", "", ""⟩ :=
      ⟨rfl, fun link linked => (by cases linked), rfl⟩
    exact (run_invariant (fun tracked => Recorded tracked.1 tracked.2) preserved _ (s, origins) events started addressed
      ran).link

/-- A server with one command in its AOF that has been started again. -/
def holding (runId : String) (key : UInt8) : Server 1 :=
  { (Server.fresh 2 runId : Server 1) with
    buckets := keyedDb key key
    backlog := Backlog.initializer 2 [[keyedPack key key]] }

/-- A server with an empty AOF and a database file. -/
def dumped (runId : String) : Server 1 :=
  { (Server.fresh 2 runId : Server 1) with
    replConf := { ReplConf.empty with runId := runId, dbDumpAof := ⟨some 0, 0⟩ }
    dbFile := some [] }

/-- A slave follows a server up to the end of its first AOF file, records the position, and
is sent to another server. -/
def moved (other : Server 1) : List (Event 1) :=
  [.slaveof "a" 1, .cron false false, .writable false false none, .readable false true (some ⟨1, holding "a" 1⟩),
    .multi (Fin.last 0) ⟨0, 0⟩ ⟨[keyedPack 1 1], ⟨some 0, 10⟩⟩, .cron false false, .slaveof "b" 1, .cron false false,
    .writable false false none, .readable false true (some ⟨1, other⟩)]

/-- A server that does not reach the position sends its database file, and the slave is
connected to it with a position from it. -/
theorem connected_dumped : ∃ s origins, run (track List.length keyedHset (Sorting.insertion 1))
      (fresh 2 "c", ⟨"", "", ""⟩) (moved (dumped "b") ++ [.payload (.last true)]) = some (s, origins) ∧
    s.server.master = some ⟨"b", ⟨some 0, 0⟩⟩ ∧ origins.link = "b" := by
  have same : (run (track List.length keyedHset (Sorting.insertion 1)) (fresh 2 "c", ⟨"", "", ""⟩)
      (moved (dumped "b") ++ [.payload (.last true)])).map
        (fun tracked => (tracked.1.control.replState, tracked.1.server.master)) =
      some (.connected, some ⟨"b", ⟨some 0, 0⟩⟩) := by decide +kernel
  obtain ⟨⟨s, origins⟩, ran, same⟩ := Option.map_eq_some_iff.mp same
  simp only [Prod.mk.injEq] at same
  obtain ⟨connected, linked⟩ := same
  have origin := (connected_origin List.length keyedHset (Sorting.insertion 1)).2 2 "c"
    (moved (dumped "b") ++ [.payload (.last true)]) s origins ran (by decide +kernel) connected _ linked
  exact ⟨s, origins, ran, linked, origin⟩

/-- A server whose own first file reaches the position takes it for one of its own: the slave
is connected to it with a position, and the commands, of the other server. -/
theorem connected_echoed :
    (¬ ∀ (server : Server 1) (psync : Psync), server.Grants List.length psync) ∧
      ∃ s origins, run (track List.length keyedHset (Sorting.insertion 1)) (fresh 2 "c", ⟨"", "", ""⟩)
          (moved (holding "b" 2)) = some (s, origins) ∧
        s.control.replState = .connected ∧ s.server.master = some ⟨"b", ⟨some 0, 10⟩⟩ ∧ origins.link = "a" := by
  constructor
  · intro always
    have named := (always (holding "b" 2) ⟨"a", ⟨some 0, 10⟩⟩ (by decide) (by decide +kernel)).1
    exact absurd named (by decide)
  · have same : (run (track List.length keyedHset (Sorting.insertion 1)) (fresh 2 "c", ⟨"", "", ""⟩)
        (moved (holding "b" 2))).map
          (fun tracked => (tracked.1.control.replState, tracked.1.server.master, tracked.2.link)) =
        some (.connected, some ⟨"b", ⟨some 0, 10⟩⟩, "a") := by decide +kernel
    obtain ⟨⟨s, origins⟩, ran, same⟩ := Option.map_eq_some_iff.mp same
    simp only [Prod.mk.injEq] at same
    exact ⟨s, origins, ran, same⟩

end Slave

end Naruto.Replication
