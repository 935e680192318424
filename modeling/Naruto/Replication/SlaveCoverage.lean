import Naruto.Replication.Held
import Naruto.Replication.Slave
import Naruto.Theory.Runs

/-!
# The cached position of a slave

The position in `repl_conf_` is what a slave asks to go on from. `FULLSYNC` puts the
position of the announced file there before the file has arrived; when the transfer
is aborted the position stays, and the next request is answered from it. Otherwise
the store has the effects of all commands of the master before the position, also
across restarts, as long as what is on disk is kept in order: the timer flushes no
position whose commands wait for a merge, and a received file meets no own AOF that
a start would execute behind it.
-/

namespace Naruto.Replication.Slave

open Naruto.Theory Naruto.Utils Naruto.Sink Naruto.Database Naruto.Command SlavePosition SlaveState

variable {k m : Nat} {parse : ParseHset}

/-- The database file of a master covers the position that is recorded for it. -/
def Serves (h : History parse) (master : Server k) : Prop :=
  master.replConf.dbDumpAof.name ≠ none →
    CoversAt h (Buckets.load (master.dbFile.getD [])).cells master.replConf.dbDumpAof

/-- A message brings the next packets of the master, and the position behind them. -/
structure Brings (h : History parse) (s : Slave m) (message : Multi) (packs : List Pack) : Prop where
  commands : message.commands = packs.map reframe
  located : ∃ n, At h.files message.aof n
  next : ∀ link, s.server.master = some link →
    loadAof h.files link.replAof = packs ++ loadAof h.files message.aof

/-- The event comes from the one master with this history. -/
def FromMaster (h : History parse) (s : Slave m) : Event m → Prop
  | .slaveof _ _ => False
  | .readable _ _ answer | .writable _ _ answer => ∀ master ∈ answer, Serves h master.2
  | .multi _ _ message => ∃ packs, Brings h s message packs
  | .cron _ _ | .payload _ | .confFlush | .restart _ _ => True

/-- The store covers the position in `repl_conf_`. -/
def ConfCovered (h : History parse) (s : Slave m) : Prop :=
  CoversAt h s.server.buckets.cells s.server.replConf.masterAof

/-- What goes wrong is left out. A transfer is only given up when the announced position is
covered already; read strictly, only such positions are announced. The timer flushes when
nothing waits. A file is received on an empty AOF, and covers the position on disk. Bodies
have no zero byte. -/
def Orderly (fileSize : List Features → Nat) (sorting : Sorting m) (h : History parse) (strict : Bool)
    (s : Slave m) : Event m → Prop
  | .slaveof _ _ => True
  | .cron transferTimeout _ =>
    strict = false → s.control.replState = .transfor → transferTimeout = true → ConfCovered h s
  | .readable sockerr pong answer | .writable sockerr pong answer =>
    strict = true → s.control.Asks sockerr pong → ∀ master ∈ answer,
      (master.2.commandPsync fileSize s.server.psync).1.psyncType = .fullsync →
      CoversAt h s.server.buckets.cells master.2.replConf.dbDumpAof
  | .payload .data => True
  | .payload .failed | .payload (.last false) => strict = false → ConfCovered h s
  | .payload (.last true) => s.server.aofFiles.flatten = [] ∧ s.server.unmerged sorting = [] ∧
      (Cached s.server.diskConf → CoversAt h (Buckets.load s.transfer).cells s.server.diskConf.masterAof)
  | .multi _ _ message => ∀ packs, Brings h s message packs → ∀ p ∈ packs, 0 ∉ p.body
  | .confFlush => s.server.unmerged sorting = []
  | .restart _ _ => strict = false → s.control.replState = .transfor →
      s.server.diskConf.masterAof = s.server.replConf.masterAof → ConfCovered h s

/-- The states in which a request can be sent; read strictly, all states. -/
def Observed (strict : Bool) (s : Slave m) : Prop := strict = true ∨ s.control.replState ≠ .transfor

/-- The invariant, without what is on disk. In the states that are observed the positions of
`repl_conf_` and of the link are covered by the store, and the first is not behind the
second; during a transfer both are the announced position, which the file covers. -/
structure Follows (h : History parse) (strict : Bool) (s : Slave m) (pending : List Pack)
    (recovered : Cell → Option Object) : Prop where
  armed : Armed s.control
  held : Held parse s.server pending recovered
  reads : s.replRio = true → s.control.replState = .connected ∧ ∃ link, s.server.master = some link
  live : CoversTo h s.server.buckets.cells 0
  durable : CoversTo h recovered 0
  conf : Observed strict s → Cached s.server.replConf → ConfCovered h s
  link : Observed strict s → ∀ link, s.server.master = some link → CoversAt h s.server.buckets.cells link.replAof
  order : s.control.replState = .connected → ∀ link, s.server.master = some link → Cached s.server.replConf →
    ∀ n n', At h.files s.server.replConf.masterAof n → At h.files link.replAof n' → n ≤ n'
  transfer : s.control.replState = .transfor →
    (∃ link, s.server.master = some link ∧ s.server.replConf.masterRunId = link.replRunId ∧
      s.server.replConf.masterAof = link.replAof) ∧
    CoversAt h (Buckets.load s.transfer).cells s.server.replConf.masterAof

/-- The invariant. A position on disk is covered by what a start would recover, or it is the
announced one. -/
structure Inv (h : History parse) (strict : Bool) (s : Slave m) (pending : List Pack)
    (recovered : Cell → Option Object) : Prop extends Follows h strict s pending recovered where
  disk : Cached s.server.diskConf → CoversAt h recovered s.server.diskConf.masterAof ∨
    s.control.replState = .transfor ∧ pending = [] ∧
      s.server.diskConf.masterAof = s.server.replConf.masterAof ∧ Cached s.server.replConf

section Events

variable {fileSize : List Features → Nat} {sorting : Sorting m} {h : History parse} {strict : Bool} {s s' : Slave m}
  {pending : List Pack} {recovered : Cell → Option Object}

/-- The link is read only while connected. -/
theorem Follows.unread (follows : Follows h strict s pending recovered) (state : s.control.replState ≠ .connected) :
    s.replRio = false := by
  cases reads : s.replRio with
  | false => rfl
  | true => exact absurd (follows.reads reads).1 state

/-- The ports do not matter. -/
theorem Inv.same (inv : Inv h strict s pending recovered) (control : s'.control = s.control)
    (server : s'.server = s.server) (transfer : s'.transfer = s.transfer) (replRio : s'.replRio = s.replRio) :
    Inv h strict s' pending recovered := by
  obtain ⟨control', server', _, _, transfer', replRio'⟩ := s'
  subst control server transfer replRio
  exact ⟨⟨inv.armed, inv.held, inv.reads, inv.live, inv.durable, inv.conf, inv.link, inv.order, inv.transfer⟩,
    inv.disk⟩

/-- Where the announced position is covered, every position is, also the one on disk. -/
theorem Inv.settled (inv : Inv h strict s pending recovered)
    (covered : strict = false → s.control.replState = .transfor →
      s.server.diskConf.masterAof = s.server.replConf.masterAof → ConfCovered h s) :
    Cached s.server.diskConf → CoversAt h recovered s.server.diskConf.masterAof := by
  intro cached
  rcases inv.disk cached with covers | ⟨transfor, nothing, same, cached'⟩
  · exact covers
  · subst nothing
    rw [inv.held.settled, same]
    cases strict with
    | true => exact inv.conf (Or.inl rfl) cached'
    | false => exact covered rfl transfor same

/-- A slave that waits for its next connection, with the positions it has. A transfer is only
given up when its position is covered. Outside a transfer the invariant covers link and
configuration; in one both have the announced position. -/
theorem Inv.leave (inv : Inv h strict s pending recovered)
    (covered : strict = false → s.control.replState = .transfor → ConfCovered h s) (server : s'.server = s.server)
    (armed : Armed s'.control) (unread : s'.replRio = false) (transfor : s'.control.replState ≠ .transfor)
    (connected : s'.control.replState ≠ .connected) : Inv h strict s' pending recovered := by
  have positions : (Cached s.server.replConf → ConfCovered h s) ∧
      ∀ link, s.server.master = some link → CoversAt h s.server.buckets.cells link.replAof := by
    by_cases observed : Observed strict s
    · exact ⟨inv.conf observed, inv.link observed⟩
    · obtain ⟨loose, transfor⟩ := not_or.mp observed
      have announced := covered (Bool.eq_false_iff.mpr loose) (not_not.mp transfor)
      obtain ⟨⟨link', linked', _, same⟩, _⟩ := inv.transfer (not_not.mp transfor)
      constructor
      · exact fun _ => announced
      · intro link linked
        obtain rfl := Option.some.inj (linked'.symm.trans linked)
        rw [← same]
        exact announced
  have disk := inv.settled fun loose transfor _ => covered loose transfor
  constructor
  · constructor
    · exact armed
    · rw [server]
      exact inv.held
    · intro reads
      cases unread.symm.trans reads
    · rw [server]
      exact inv.live
    · exact inv.durable
    · intro _
      rw [ConfCovered, server]
      exact positions.1
    · intro _
      rw [server]
      exact positions.2
    · exact fun state => absurd state connected
    · exact fun state => absurd state transfor
  · rw [server]
    exact fun cached => Or.inl (disk cached)

/-- What a flush does to the position in `repl_conf_`. -/
theorem replConfFlush_position (s : Server m) :
    (s.replConfFlush.replConf = s.replConf ∨ ∃ link, s.master = some link ∧
      s.replConfFlush.replConf.masterRunId = link.replRunId ∧ s.replConfFlush.replConf.masterAof = link.replAof) := by
  by_cases recorded : ∃ link, s.master = some link ∧ link.Named
  · obtain ⟨link, linked, named⟩ := recorded
    exact Or.inr ⟨link, linked, Server.replConfFlush_link linked named⟩
  · apply Or.inl
    apply Server.replConfFlush_alone
    exact fun link linked named => recorded ⟨link, linked, named⟩

/-- The position that a flush leaves in memory is covered: it is the one before, or that of the
link. -/
theorem Follows.confFlushed (follows : Follows h strict s [] recovered) (observed : Observed strict s)
    (server : s'.server = s.server.replConfFlush) (cached : Cached s'.server.replConf) : ConfCovered h s' := by
  obtain ⟨buckets, _⟩ := s.server.replConfFlush_frame
  rw [ConfCovered, server, buckets]
  rw [server] at cached
  rcases replConfFlush_position s.server with same | ⟨link, linked, _, aof⟩
  · rw [same] at cached ⊢
    exact follows.conf observed cached
  · rw [aof]
    exact follows.link observed link linked

/-- A flush when nothing waits: the disk follows the memory. The position in memory is covered
with the own AOF alone then, which is all that a restart has. -/
theorem Follows.confFlush (follows : Follows h strict s [] recovered) (control : s'.control = s.control)
    (server : s'.server = s.server.replConfFlush) (transfer : s'.transfer = s.transfer)
    (replRio : s'.replRio = s.replRio) : Inv h strict s' [] recovered := by
  obtain ⟨buckets, _, master, _, _, _, disk⟩ := s.server.replConfFlush_frame
  have position := replConfFlush_position s.server
  have observed : Observed strict s' → Observed strict s := by
    rw [Observed, control]
    exact id
  constructor
  · constructor
    · rw [control]
      exact follows.armed
    · rw [server]
      exact follows.held.confFlush
    · rw [control, replRio, server, master]
      exact follows.reads
    · rw [server, buckets]
      exact follows.live
    · exact follows.durable
    · exact fun observed' => follows.confFlushed (observed observed') server
    · intro observed'
      rw [server, master, buckets]
      exact follows.link (observed observed')
    · intro connected link linked cached n n' located located'
      rw [control] at connected
      rw [server, master] at linked
      rw [server] at cached located
      rcases position with same | ⟨link', linked', _, aof⟩
      · rw [same] at cached located
        exact follows.order connected link linked cached n n' located located'
      · obtain rfl := Option.some.inj (linked.symm.trans linked')
        rw [aof] at located
        exact Nat.le_of_eq (located.unique located')
    · intro transfor
      rw [control] at transfor
      obtain ⟨⟨link, linked, runId, aof⟩, covers⟩ := follows.transfer transfor
      rw [server, master, transfer]
      rcases position with same | ⟨link', linked', runId', aof'⟩
      · rw [same]
        exact ⟨⟨link, linked, runId, aof⟩, covers⟩
      · obtain rfl := Option.some.inj (linked.symm.trans linked')
        rw [aof', ← aof]
        exact ⟨⟨link, linked, runId', aof⟩, covers⟩
  · intro cached
    have same : s'.server.diskConf = s'.server.replConf := by
      rw [server]
      exact disk
    rw [same] at cached ⊢
    by_cases observed' : Observed strict s'
    · have covers := follows.confFlushed (observed observed') server cached
      rw [ConfCovered, server, buckets, ← follows.held.settled, ← server] at covers
      exact Or.inl covers
    · have transfor := not_not.mp (not_or.mp observed').2
      exact Or.inr ⟨transfor, rfl, rfl, cached⟩

/-- A merge: a start would then recover the live store. What waits goes into the AOF, and a
flush follows when something did. -/
theorem Inv.merge (inv : Inv h strict s pending recovered) (sorting : Sorting m) :
    Inv h strict (s.merge sorting) [] s.server.buckets.cells := by
  obtain ⟨b, waits, extended, result⟩ := s.server.merge_spec inv.held.waiting sorting
  have follows : Follows h strict { s with server := { s.server with backlog := b } } [] s.server.buckets.cells :=
    ⟨inv.armed, inv.held.merged waits extended, inv.reads, inv.live, inv.live, inv.conf, inv.link, inv.order,
      inv.transfer⟩
  have same : (s.merge sorting).transfer = s.transfer ∧ (s.merge sorting).replRio = s.replRio := by
    rw [Slave.merge]
    split <;> exact ⟨rfl, rfl⟩
  by_cases nothing : pending = []
  · have merged : Inv h strict { s with server := { s.server with backlog := b } } [] s.server.buckets.cells := by
      refine ⟨follows, ?_⟩
      subst nothing
      rw [← inv.held.settled]
      exact inv.disk
    rw [if_pos nothing] at result
    exact merged.same (merge_control sorting s) ((merge_server sorting s).trans result) same.1 same.2
  · rw [if_neg nothing] at result
    exact follows.confFlush (merge_control sorting s) ((merge_server sorting s).trans result) same.1 same.2

/-- The tests for a connection that takes too long. A handshake is given up with the positions
as they were, and a transfer only when the announced one is covered. -/
theorem Inv.dropLate (inv : Inv h strict s pending recovered) (transferTimeout : Bool)
    (covered : strict = false → s.control.replState = .transfor → transferTimeout = true → ConfCovered h s) :
    Inv h strict (s.dropLate transferTimeout) pending recovered := by
  have armed : Armed (s.dropLate transferTimeout).control :=
    (inv.armed.undoLate transferTimeout).abortLate transferTimeout
  have server : (s.dropLate transferTimeout).server = s.server := rfl
  have given : ∀ covered : strict = false → s.control.replState = .transfor → ConfCovered h s,
      s.control.replState ≠ .connected → (s.dropLate transferTimeout).control.replState = .connect →
      Inv h strict (s.dropLate transferTimeout) pending recovered := by
    intro covered state connect
    apply inv.leave covered server armed (inv.unread state)
    · rw [connect]
      decide
    · rw [connect]
      decide
  by_cases connecting : (s.control.replState = .connecting ∨ s.control.replState = .receivePong) ∧ transferTimeout = true
  · apply given
    · intro _ transfor
      rcases connecting.1 with here | here <;> cases here.symm.trans transfor
    · rcases connecting.1 with here | here <;> rw [here] <;> decide
    · rw [Slave.dropLate, undoLate, if_pos connecting]
      rfl
  · by_cases transfor : s.control.replState = .transfor ∧ transferTimeout = true
    · apply given
      · exact fun loose here => covered loose here transfor.2
      · rw [transfor.1]
        decide
      · rw [Slave.dropLate, undoLate, if_neg connecting, abortLate, if_pos transfor]
        rfl
    · have control : (s.dropLate transferTimeout).control = s.control := by
        rw [Slave.dropLate, undoLate, if_neg connecting, abortLate, if_neg transfor]
      exact inv.same control server rfl rfl

/-- The position that is cached with the link is covered: it is that of the link, or the one
before when there is no link. -/
theorem Inv.masterCached (inv : Inv h strict s pending recovered) (observed : Observed strict s)
    (server : s'.server = s.server.cacheMaster) (cached : Cached s'.server.replConf) : ConfCovered h s' := by
  obtain ⟨buckets, _⟩ := s.server.cacheMaster_frame
  rw [server] at cached
  rw [ConfCovered, server, buckets]
  cases linked : s.server.master with
  | none =>
    rw [Server.cacheMaster_alone linked] at cached ⊢
    exact inv.conf observed cached
  | some link =>
    rw [(Server.cacheMaster_link linked).2]
    exact inv.link observed link linked

/-- A silent master is given up, and the position of its link cached. The position of the link
moves to the configuration, and what the store covers stays. -/
theorem Inv.cacheLate (inv : Inv h strict s pending recovered) (interactionTimeout : Bool) :
    Inv h strict (s.cacheLate interactionTimeout) pending recovered := by
  have armed : Armed (s.control.cacheLate interactionTimeout) := inv.armed.cacheLate interactionTimeout
  rw [Slave.cacheLate]
  split
  · rename_i late
    rw [SlaveState.cacheLate, if_pos late] at armed
    have observed : Observed strict s := by
      apply Or.inr
      rw [late.1]
      decide
    have state : s.control.cacheMaster.replState ≠ .transfor := by
      rw [SlaveState.cacheMaster]
      split
      · rw [late.1]
        decide
      · intro impossible
        cases impossible
    obtain ⟨buckets, backlog, master, dbFile, confFile, dump⟩ := s.server.cacheMaster_frame
    have disk : s.server.cacheMaster.diskConf = s.server.diskConf := by
      rw [Server.diskConf, confFile]
      rfl
    constructor
    · constructor
      · exact armed
      · exact inv.held.frame buckets backlog dbFile dump confFile
      · exact fun impossible => by cases impossible
      · dsimp only
        rw [buckets]
        exact inv.live
      · exact inv.durable
      · exact fun _ => inv.masterCached observed rfl
      · intro _
        dsimp only
        rw [buckets, master]
        exact inv.link observed
      · intro _ link linked _ n n' located located'
        dsimp only at linked located
        rw [master] at linked
        rw [(Server.cacheMaster_link linked).2] at located
        exact Nat.le_of_eq (located.unique located')
      · exact fun transfor => absurd transfor state
    · intro cached
      dsimp only at cached ⊢
      rw [disk] at cached ⊢
      apply Or.inl
      exact inv.settled (fun _ transfor => by cases late.1.symm.trans transfor) cached
  · exact inv

/-- A new connection has no position yet. It takes the place of the link, whose position is
cached in the configuration. -/
theorem Inv.connectAnew (inv : Inv h strict s pending recovered) : Inv h strict s.connectAnew pending recovered := by
  have armed : Armed s.control.connectAnew := inv.armed.connectAnew
  rw [Slave.connectAnew]
  split
  · rename_i connect
    rw [SlaveState.connectAnew, if_pos connect] at armed
    have observed : Observed strict s := by
      apply Or.inr
      rw [connect]
      decide
    constructor
    · constructor
      · exact armed
      · exact inv.held.frame rfl rfl rfl rfl rfl
      · exact fun impossible => by cases impossible
      · exact inv.live
      · exact inv.durable
      · exact fun _ => inv.conf observed
      · intro _ link linked
        obtain rfl := Option.some.inj linked
        exact inv.live.start
      · exact fun connected => by cases connected
      · exact fun transfor => by cases transfor
    · exact fun cached => Or.inl (inv.settled (fun _ transfor => by cases connect.symm.trans transfor) cached)
  · exact inv

/-- A tick. -/
theorem Inv.onReplCron (inv : Inv h strict s pending recovered) (sorting : Sorting m)
    (transferTimeout interactionTimeout : Bool)
    (covered : strict = false → s.control.replState = .transfor → transferTimeout = true → ConfCovered h s) :
    ∃ recovered', Inv h strict (s.onReplCron sorting transferTimeout interactionTimeout) [] recovered' := by
  have followed : Inv h strict (s.followCron transferTimeout interactionTimeout) pending recovered := by
    rw [followCron]
    split
    · exact inv
    · exact ((inv.dropLate transferTimeout covered).cacheLate interactionTimeout).connectAnew
  exact ⟨_, followed.merge sorting⟩

/-- The position that a server grants to the request is covered. -/
theorem Inv.granted (inv : Inv h strict s pending recovered) (observed : Observed strict s) {master : Server k}
    (partsync : (master.commandPsync fileSize s.server.psync).1.psyncType = .partsync) :
    CoversAt h s.server.buckets.cells (master.commandPsync fileSize s.server.psync).1.replAof := by
  rcases Server.commandPsync_position partsync with first | ⟨known, echoed⟩
  · rw [first]
    exact inv.live.first
  · have cached : Cached s.server.replConf := by
      by_contra uncached
      rw [Server.psync, if_neg uncached] at known
      exact known rfl
    rw [echoed, Server.psync, if_pos cached]
    exact inv.conf observed cached

/-- After an answer with a position, link and configuration stand at this position. With
`PARTSYNC` it is the position of the request, which the store covers; with `FULLSYNC` it is
announced. -/
theorem Inv.follow (inv : Inv h strict s pending recovered) (observed : Observed strict s) {reply : PsyncReply}
    (server : s'.server = s.server.follow reply) (armed : Armed s'.control)
    (reads : s'.replRio = true → s'.control.replState = .connected)
    (covers : Observed strict s' → CoversAt h s.server.buckets.cells reply.replAof)
    (announced : s'.control.replState = .transfor → CoversAt h (Buckets.load s'.transfer).cells reply.replAof) :
    Inv h strict s' pending recovered := by
  have transfor : s.control.replState = .transfor → strict = true := fun transfor =>
    observed.elim id fun state => absurd transfor state
  constructor
  · constructor
    · exact armed
    · rw [server]
      exact inv.held.frame rfl rfl rfl rfl rfl
    · intro armed
      rw [server]
      exact ⟨reads armed, _, rfl⟩
    · rw [server]
      exact inv.live
    · exact inv.durable
    · intro observed' _
      rw [ConfCovered, server]
      exact covers observed'
    · intro observed' link linked
      rw [server] at linked ⊢
      obtain rfl := Option.some.inj linked
      exact covers observed'
    · intro _ link linked _ n n' located located'
      rw [server] at linked located
      obtain rfl := Option.some.inj linked
      exact Nat.le_of_eq (located.unique located')
    · intro transfor
      rw [server]
      exact ⟨⟨_, rfl, rfl, rfl⟩, announced transfor⟩
  · intro cached
    rw [server] at cached ⊢
    apply Or.inl
    exact inv.settled (fun loose here _ => by cases loose.symm.trans (transfor here)) cached

/-- A handshake that brings no position. -/
theorem Inv.handshakes (inv : Inv h strict s pending recovered) (transfor : s.control.replState ≠ .transfor)
    (server : s'.server = s.server) (armed : Armed s'.control) (unread : s'.replRio = false)
    (state : s'.control.replState = .connect ∨ s'.control.replState = .receivePong) :
    Inv h strict s' pending recovered := by
  apply inv.leave (fun _ here => absurd here transfor) server armed unread
  · rcases state with here | here <;> rw [here] <;> decide
  · rcases state with here | here <;> rw [here] <;> decide

/-- The handshake. The cases are the states of the handshake, and in the last one the
answers. -/
theorem Inv.onSyncWithMaster (inv : Inv h strict s pending recovered)
    (state : s.control.replState = .connecting ∨ s.control.replState = .receivePong) (sockerr pong : Bool)
    (answer : Option ((k : Nat) × Server k)) (serves : ∀ master ∈ answer, Serves h master.2)
    (announced : strict = true → s.control.Asks sockerr pong → ∀ master ∈ answer,
      (master.2.commandPsync fileSize s.server.psync).1.psyncType = .fullsync →
      CoversAt h s.server.buckets.cells master.2.replConf.dbDumpAof) :
    Inv h strict (s.onSyncWithMaster fileSize sockerr pong answer) pending recovered := by
  have transfor : s.control.replState ≠ .transfor := by
    rcases state with here | here <;> rw [here] <;> decide
  have observed : Observed strict s := Or.inr transfor
  have armed : Armed (s.onSyncWithMaster fileSize sockerr pong answer).control := by
    rw [onSyncWithMaster_control]
    exact inv.armed.onSyncWithMaster state sockerr pong _
  by_cases asks : s.control.Asks sockerr pong
  · have state' := onSyncWithMaster_asks asks (s.outcome fileSize answer)
    rw [Slave.onSyncWithMaster, if_pos asks] at armed ⊢
    cases answer with
    | none => exact inv.handshakes transfor rfl armed rfl (Or.inl state')
    | some master =>
      have result : s.outcome fileSize (some master) = (master.2.commandPsync fileSize s.server.psync).1.outcome := rfl
      rw [PsyncReply.outcome] at result
      rw [slaveTryPartialResynchronization] at armed ⊢
      cases type : (master.2.commandPsync fileSize s.server.psync).1.psyncType with
      | trysync =>
        rw [type] at result
        dsimp only at armed ⊢
        have connect : (s.control.onSyncWithMaster sockerr pong (s.outcome fileSize (some master))).replState =
            .connect := by rw [state', result]
        exact inv.handshakes transfor rfl armed rfl (Or.inl connect)
      | partsync =>
        rw [type] at result
        dsimp only at armed ⊢
        have connected : (s.control.onSyncWithMaster sockerr pong (s.outcome fileSize (some master))).replState =
            .connected := by rw [state', result]
        apply inv.follow observed rfl armed
        · exact fun _ => connected
        · exact fun _ => inv.granted observed type
        · exact fun here => by cases connected.symm.trans here
      | fullsync =>
        rw [type] at result
        dsimp only at armed ⊢
        obtain ⟨named, position⟩ := Server.commandPsync_fullsync type
        have sending : (s.control.onSyncWithMaster sockerr pong (s.outcome fileSize (some master))).replState =
            .transfor := by rw [state', result]
        apply inv.follow observed rfl armed
        · intro reads
          exact absurd (inv.reads reads).1 (by rcases state with here | here <;> rw [here] <;> decide)
        · intro observed'
          rw [position]
          exact announced (observed'.resolve_right (not_not.mpr sending)) asks master rfl type
        · intro _
          rw [position]
          exact serves master rfl named
  · have state' := onSyncWithMaster_waits asks (s.outcome fileSize answer) state
    rw [Slave.onSyncWithMaster, if_neg asks] at armed ⊢
    exact inv.handshakes transfor rfl armed rfl state'

/-- What has arrived of a file. The cases are a failure, a part of the file and its end; the
end loads the file, which covers the announced position. -/
theorem Inv.onReadSyncBulkPayload (inv : Inv h strict s pending recovered) (state : s.control.replState = .transfor)
    (result : SlaveState.Payload) (orderly : Orderly fileSize sorting h strict s (.payload result)) :
    ∃ recovered', Inv h strict (s.onReadSyncBulkPayload result) pending recovered' := by
  have write := inv.armed.unarmed (by rw [state]; decide)
  have aborted : ∀ {s' : Slave m}, (strict = false → ConfCovered h s) → s'.server = s.server →
      s'.control = s.control.abortSyncTransfer → s'.replRio = s.replRio →
      ∃ recovered', Inv h strict s' pending recovered' := by
    intro s' covered server control replRio
    refine ⟨recovered, inv.leave (fun loose _ => covered loose) server ?_ ?_ ?_ ?_⟩
    · rw [control]
      exact Armed.off rfl write
    · rw [replRio]
      apply inv.unread
      rw [state]
      decide
    · rw [control]
      intro impossible
      cases impossible
    · rw [control]
      intro impossible
      cases impossible
  cases result with
  | failed => exact aborted orderly rfl rfl rfl
  | data => exact ⟨recovered, inv.same rfl rfl rfl rfl⟩
  | last renamed =>
    cases renamed with
    | false => exact aborted orderly rfl rfl rfl
    | true =>
      obtain ⟨clean, merged, disk⟩ := orderly
      rw [s.server.unmerged_eq inv.held.waiting] at merged
      subst merged
      obtain ⟨⟨link, linked, runId, aof⟩, covers⟩ := inv.transfer state
      refine ⟨(Buckets.load s.transfer).cells, ?_⟩
      constructor
      · constructor
        · exact Armed.off rfl write
        · exact inv.held.loadReceived s.transfer clean
        · exact fun _ => ⟨rfl, link, linked⟩
        · exact covers.base
        · exact covers.base
        · exact fun _ _ => covers
        · intro _ link' linked'
          obtain rfl := Option.some.inj (linked.symm.trans linked')
          change CoversAt h (Buckets.load s.transfer).cells link.replAof
          rw [← aof]
          exact covers
        · intro _ link' linked' _ n n' located located'
          obtain rfl := Option.some.inj (linked.symm.trans linked')
          change At h.files s.server.replConf.masterAof n at located
          rw [aof] at located
          exact Nat.le_of_eq (located.unique located')
        · exact fun transfor => by cases transfor
      · exact fun cached => Or.inl (disk cached)

/-- A message of the master, carried whole. Its packets are the next ones of the history, so
the store covers the place behind them. -/
theorem Inv.multi (inv : Inv h strict s pending recovered) (reads : s.replRio = true) {tid : Fin m} {clock : Clock}
    {message : Multi} {packs : List Pack} (brings : Brings h s message packs) (uncut : ∀ p ∈ packs, 0 ∉ p.body)
    {server : Server m} (executed : s.server.commandAof parse clock tid message = some server) :
    Inv h strict { s with server := server } (pending ++ message.commands) recovered := by
  obtain ⟨connected, link, linked⟩ := inv.reads reads
  have observed : Observed strict s := by
    apply Or.inr
    rw [connected]
    decide
  obtain ⟨fed, master⟩ := Server.commandAof_spec executed
  have same := fed.same
  have conf : server.replConf = s.server.replConf := by rw [same]
  have disk : server.diskConf = s.server.diskConf := by
    rw [same]
    rfl
  rw [linked, Option.map_some] at master
  obtain ⟨n, here, covers⟩ := inv.link observed link linked
  obtain ⟨n', there⟩ := brings.located
  have next := brings.next link linked
  rw [here.loadAof, there.loadAof] at next
  have performed := fed.performed
  rw [brings.commands] at performed
  obtain ⟨covers', order⟩ := covers.advance here.le there.le next uncut performed
  constructor
  · constructor
    · exact inv.armed
    · exact inv.held.feed fed
    · exact fun _ => ⟨connected, _, master⟩
    · exact covers'.mono (Nat.zero_le n')
    · exact inv.durable
    · intro _ cached
      rw [ConfCovered]
      dsimp only at cached ⊢
      rw [conf] at cached ⊢
      obtain ⟨i, located, _⟩ := inv.conf observed cached
      have before := inv.order connected link linked cached i n located here
      exact ⟨i, located, covers'.mono (Nat.le_trans before order)⟩
    · intro _ link' linked'
      obtain rfl := Option.some.inj (master.symm.trans linked')
      exact ⟨n', there, covers'⟩
    · intro _ link' linked' cached i i' located located'
      dsimp only at linked' cached located
      rw [conf] at cached located
      obtain rfl := Option.some.inj (master.symm.trans linked')
      have before := inv.order connected link linked cached i n located here
      rw [located'.unique there]
      exact Nat.le_trans before order
    · exact fun transfor => by cases connected.symm.trans transfor
  · intro cached
    dsimp only at cached ⊢
    rw [disk] at cached ⊢
    exact Or.inl (inv.settled (fun _ transfor => by cases connected.symm.trans transfor) cached)

/-- A new process goes on from what is on disk. The recovered store covers the position on
disk, which is what the link will ask with. -/
theorem Inv.restart (inv : Inv h strict s pending recovered)
    (covered : strict = false → s.control.replState = .transfor →
      s.server.diskConf.masterAof = s.server.replConf.masterAof → ConfCovered h s)
    {clock : Clock} {genRandomID : String} {server : Server m}
    (started : s.server.init parse clock genRandomID = some server) (port : Int) :
    Inv h strict (start server port) [] recovered := by
  have disk := inv.settled covered
  obtain ⟨held, cells⟩ := inv.held.restart started
  obtain ⟨_, _, conf, master, _⟩ := Server.init_spec started
  have diskConf := (Server.init_files started).2.2.2.1
  have state : (start server port).control.replState ≠ .transfor ∧ (start server port).control.replState ≠ .connected := by
    rw [start, SlaveState.init]
    dsimp only
    split
    · exact ⟨by decide, by decide⟩
    · exact ⟨by decide, by decide⟩
  constructor
  · constructor
    · exact Armed.off rfl rfl
    · exact held
    · exact fun impossible => by cases impossible
    · change CoversTo h server.buckets.cells 0
      rw [cells]
      exact inv.durable
    · exact inv.durable
    · intro _ cached
      change Cached server.replConf at cached
      change CoversAt h server.buckets.cells server.replConf.masterAof
      rw [conf] at cached ⊢
      rw [cells]
      exact disk cached
    · exact fun _ link linked => by cases master.symm.trans linked
    · exact fun connected => absurd connected state.2
    · exact fun transfor => absurd transfor state.1
  · intro cached
    change Cached server.diskConf at cached
    change CoversAt h recovered server.diskConf.masterAof ∨ _
    rw [diskConf] at cached ⊢
    exact Or.inl (disk cached)

/-- Every event of the one master that is in order keeps the invariant. One lemma for each
event. -/
theorem Inv.step (inv : Inv h strict s pending recovered) {event : Event m} (master : FromMaster h s event)
    (orderly : Orderly fileSize sorting h strict s event)
    (stepped : step fileSize parse sorting s event = some s') :
    ∃ pending' recovered', Inv h strict s' pending' recovered' := by
  obtain ⟨_, enabled, handled⟩ := step_handle stepped
  cases event with
  | slaveof host port => exact master.elim
  | cron transferTimeout interactionTimeout =>
    obtain rfl := Option.some.inj handled
    exact ⟨[], inv.onReplCron sorting transferTimeout interactionTimeout orderly⟩
  | readable sockerr pong answer =>
    obtain rfl := Option.some.inj handled
    exact ⟨pending, recovered, inv.onSyncWithMaster (inv.armed.sync enabled) sockerr pong answer master orderly⟩
  | writable sockerr pong answer =>
    obtain rfl := Option.some.inj handled
    exact ⟨pending, recovered, inv.onSyncWithMaster (Or.inl (inv.armed.write enabled)) sockerr pong answer master
      orderly⟩
  | payload result =>
    obtain rfl := Option.some.inj handled
    exact ⟨pending, inv.onReadSyncBulkPayload (inv.armed.bulk enabled) result orderly⟩
  | multi tid clock message =>
    obtain ⟨server, executed, rfl⟩ := Option.map_eq_some_iff.mp handled
    obtain ⟨packs, brings⟩ := master
    exact ⟨_, recovered, inv.multi enabled brings (orderly packs brings) executed⟩
  | confFlush =>
    obtain rfl := Option.some.inj handled
    have nothing : s.server.unmerged sorting = [] := orderly
    rw [s.server.unmerged_eq inv.held.waiting] at nothing
    subst nothing
    exact ⟨[], recovered, inv.toFollows.confFlush rfl rfl rfl rfl⟩
  | restart clock genRandomID =>
    obtain ⟨server, started, rfl⟩ := Option.map_eq_some_iff.mp handled
    exact ⟨[], recovered, inv.restart orderly started s.diskPort⟩

/-- The invariant holds where a slave is sent to its master. -/
theorem Inv.slaveof (h : History parse) (strict : Bool) (rotateAofFileSize : Nat) (runId host : String) (port : Int) :
    Inv h strict ((fresh rotateAofFileSize runId : Slave m).slaveof host port) [] (fun _ => none) where
  armed := Armed.off rfl rfl
  held := (Held.fresh rotateAofFileSize runId).frame rfl rfl rfl rfl rfl
  reads := fun impossible => by cases impossible
  live := Covers.empty
  durable := Covers.empty
  conf := fun _ cached => absurd rfl cached.1
  link := fun _ _ impossible => by cases impossible
  order := fun impossible => by cases impossible
  transfer := fun impossible => by cases impossible
  disk := fun cached => absurd rfl cached.1

end Events

/-- The AOF of a master that sets one key. -/
def oneSet : History keyedHset where
  files := [[keyedPack 1 1]]
  opened := List.cons_ne_nil _ _
  replayable := ⟨_, perform_keyedPack _ 1 1⟩

/-- This master, with a database file that was made behind the command. -/
def oneSetMaster : Server 1 :=
  { (Server.fresh 2 "a" : Server 1) with
    buckets := keyedDb 1 1
    backlog := Backlog.initializer 2 [[keyedPack 1 1]]
    replConf := { ReplConf.empty with runId := "a", dbDumpAof := ⟨some 0, 10⟩ }
    dbFile := some (keyedDb 1 1).dump }

/-- The position behind the command. -/
theorem at_oneSet : At oneSet.files ⟨some 0, 10⟩ 1 := (RotateFileStream.mk 2 [] [keyedPack 1 1]).curRollFile_at

/-- Its file covers the position. -/
theorem serves_oneSetMaster : Serves oneSet oneSetMaster := by
  intro _
  have file : oneSetMaster.dbFile = some (keyedDb 1 1).dump := rfl
  have position : oneSetMaster.replConf.dbDumpAof = ⟨some 0, 10⟩ := rfl
  rw [file, position, Option.getD_some, Buckets.cells_load_dump _ (keyedDb_written 1 1), keyedDb_cells]
  refine ⟨1, at_oneSet, Covers.of_take (j := 1) ?_ (Nat.le_refl 1)⟩
  exact perform_keyedPack (fun _ => none) 1 1

/-- A slave connects and is answered with `FULLSYNC`. -/
def connecting : List (Event 1) :=
  [.cron false false, .writable false false none, .readable false true (some ⟨1, oneSetMaster⟩)]

/-- Up to this answer everything comes from the master, and is in order. -/
theorem along_connecting {condition : Slave 1 → Event 1 → Prop} (s : Slave 1) (events : List (Event 1))
    (cron : ∀ s, condition s (.cron false false)) (ping : ∀ s, condition s (.writable false false none))
    (psync : ∀ s, condition s (.readable false true (some ⟨1, oneSetMaster⟩)))
    (later : ∀ s', run (step List.length keyedHset (Sorting.insertion 1)) s connecting = some s' →
      Along (step List.length keyedHset (Sorting.insertion 1)) condition s' events) :
    Along (step List.length keyedHset (Sorting.insertion 1)) condition s (connecting ++ events) := by
  refine ⟨cron s, fun s₁ first => ⟨ping s₁, fun s₂ second => ⟨psync s₂, fun s₃ third => later s₃ ?_⟩⟩⟩
  rw [connecting, run_cons, first, Option.bind_some, run_cons, second, Option.bind_some, run_cons, third]
  rfl

end Naruto.Replication.Slave
