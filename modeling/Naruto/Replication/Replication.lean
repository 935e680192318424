import Naruto.Command.Replay
import Naruto.Link.ClientLink
import Naruto.Replication.Backlog

/-!
# The server

The store, the `Replication` object and the files it keeps: the database file, the
configuration file and the AOF. Commands change the store and are fed to the
backlog; the cron merges; a forked child dumps the store, and its file replaces
the database file when it has finished; a full sync replaces the database file
and the store; a start reads everything back.
-/

namespace Naruto.Replication

open Naruto.Theory Naruto.Utils Naruto.Sink Naruto.Database Naruto.Command

/-- `replConf`, with the pairs of a name and an offset it holds. A flush writes it to
`repl.conf`. -/
structure ReplConf where
  runId : String
  dbDumpAof : FileState
  masterIp : String
  masterRunId : String
  masterAof : FileState
deriving DecidableEq, Repr

/-- A `replConf` as it is constructed. -/
def ReplConf.empty : ReplConf := ⟨"", ⟨none, 0⟩, "", "", ⟨none, 0⟩⟩

/-- The part of the link to the master that `Replication` reads and writes. -/
structure MasterLink where
  replRunId : String
  replAof : FileState
deriving DecidableEq, Repr

/-- A running bgsave: the file the child writes, and the position of the AOF at the fork. -/
structure Bgsave where
  tmpFile : List Features
  aofBeforeBgsave : FileState
deriving DecidableEq

/-- `client::command_aof`: commands as packets with flag zero, and the position of
the master's AOF behind them. -/
structure Multi where
  commands : List Pack
  aof : FileState
deriving DecidableEq

/-- The server. Files that do not exist are `none`. Two copies of the configuration are kept,
the one in memory and the one that was flushed last. -/
structure Server (m : Nat) where
  buckets : Buckets
  backlog : Backlog m
  replConf : ReplConf
  masterHost : String
  master : Option MasterLink
  bgsaveChild : Option Bgsave
  dbFile : Option (List Features)
  confFile : Option ReplConf

namespace Server

variable {m : Nat}

/-- The AOF files. -/
def aofFiles (s : Server m) : List (List Pack) := s.backlog.aofFile.files

/-- The configuration that a start would read. -/
def diskConf (s : Server m) : ReplConf := s.confFile.getD ReplConf.empty

/-- The store that a start loads from the database file. -/
def loadDb (s : Server m) : Buckets := Buckets.load (s.dbFile.getD [])

/-- What the next merge would write. -/
def unmerged (sorting : Sorting m) (s : Server m) : List Pack :=
  (kWayMerge sorting Record.id (s.backlog.repl s.backlog.replPos)).map Record.pack

/-- `CommandHset::exec` on the packet of a client: it reads a second header, which is the
first eight bytes of the body, executes what this says, and feeds the packet as it is when
the reply is 0. `beyond` is what is parsed when that header's length goes beyond the body. -/
def commandHset (parse : ParseHset) (clock : Clock) (tid : Fin m) (s : Server m) (p : Pack) (beyond : List UInt8) :
    Option (Server m) := do
  let args ← Link.liveArgs p
  let result ← execMsg parse clock args.flag args.type s.buckets (args.bytes beyond)
  if result.2.errcode = 0 then some { s with buckets := result.1, backlog := s.backlog.backlogFeed tid p }
  else some { s with buckets := result.1 }

/-- What it does to a packet whose second header is a copy of the first: the packet's own
arguments are executed, and it is fed when the reply is 0. -/
def hset (parse : ParseHset) (clock : Clock) (tid : Fin m) (s : Server m) (p : Pack) : Option (Server m) :=
  (execPack parse clock s.buckets p).map fun result =>
    if result.2.errcode = 0 then { s with buckets := result.1, backlog := s.backlog.backlogFeed tid p }
    else { s with buckets := result.1 }

/-- One command of a `REPL_MULTI` message: fed whatever it replies. -/
def execFeed (parse : ParseHset) (clock : Clock) (tid : Fin m) (s : Server m) (p : Pack) : Option (Server m) :=
  (execPack parse clock s.buckets p).map fun result =>
    { s with buckets := result.1, backlog := s.backlog.backlogFeed tid p }

/-- `CommandAof::exec` on the link to the master. -/
def commandAof (parse : ParseHset) (clock : Clock) (tid : Fin m) (s : Server m) (message : Multi) :
    Option (Server m) :=
  (message.commands.foldlM (execFeed parse clock tid) s).map fun s =>
    { s with master := s.master.map fun link => { link with replAof := message.aof } }

/-- `replConfFlush`. A link with a run id puts its position into the configuration first; then
the disk gets what memory has. -/
def replConfFlush (s : Server m) : Server m :=
  let conf :=
    match s.master with
    | some link =>
      if link.replRunId ≠ "" ∧ link.replAof.name ≠ none then
        { s.replConf with masterIp := s.masterHost, masterRunId := link.replRunId, masterAof := link.replAof }
      else s.replConf
    | none => s.replConf
  { s with replConf := conf, confFile := some conf }

/-- `_merge_backlog_feed_slaves`, with the flush of the configuration behind it. -/
def merge (sorting : Sorting m) (s : Server m) : Server m :=
  let merged := s.backlog.mergeBacklogFeedSlaves sorting
  if merged.2 then { s with backlog := merged.1 }.replConfFlush else { s with backlog := merged.1 }

/-- `bgsave()`: nothing on an empty store or while a child runs. -/
def bgsave (s : Server m) : Server m :=
  if s.buckets.size = 0 then s
  else match s.bgsaveChild with
    | some _ => s
    | none => { s with bgsaveChild := some ⟨s.buckets.dump, s.backlog.aofFile.curRollFile⟩ }

/-- `onBgsaveFinish` of a child that has written its file. -/
def onBgsaveFinish (s : Server m) : Server m :=
  match s.bgsaveChild with
  | none => s
  | some child =>
    { s with
      dbFile := some child.tmpFile
      replConf := { s.replConf with dbDumpAof := child.aofBeforeBgsave }
      bgsaveChild := none }

/-- The end of `onReadSyncBulkPayload`: the received file becomes the database file
and is loaded into the emptied store. -/
def loadReceived (s : Server m) (file : List Features) : Server m :=
  { s with dbFile := some file, buckets := Buckets.load file }

/-- The store that a start makes of the database file and the AOF from a position on. -/
def recover (parse : ParseHset) (clock : Clock) (s : Server m) (position : FileState) : Option Buckets :=
  replayAof parse clock s.loadDb (loadAof s.aofFiles position)

/-- A process started on the files another one has left: `initializer()` and `_init()`. The
database file is loaded, and the AOF from the position on disk is executed on it. -/
def init (parse : ParseHset) (clock : Clock) (genRandomID : String) (s : Server m) : Option (Server m) :=
  let conf := s.diskConf
  let conf := if conf.runId = "" then { conf with runId := genRandomID } else conf
  (s.recover parse clock conf.dbDumpAof).map fun buckets =>
    { buckets := buckets
      backlog := Backlog.initializer s.backlog.aofFile.rotateAofFileSize s.aofFiles
      replConf := conf
      masterHost := conf.masterIp
      master := none
      bgsaveChild := none
      dbFile := s.dbFile
      confFile := s.confFile }

/-- `stop()`, as far as it concerns the server's own state. -/
def stop (s : Server m) : Server m := { s with backlog := s.backlog.stop, master := none }

/-- A server in an empty directory, before its first command. It has generated its run id and
opened its first AOF file. -/
def fresh (rotateAofFileSize : Nat) (runId : String) : Server m where
  buckets := Buckets.empty
  backlog := Backlog.initializer rotateAofFileSize []
  replConf := { ReplConf.empty with runId := runId }
  masterHost := ""
  master := none
  bgsaveChild := none
  dbFile := none
  confFile := none

/-- What a flush of the configuration leaves as it is. -/
theorem replConfFlush_frame (s : Server m) :
    s.replConfFlush.buckets = s.buckets ∧ s.replConfFlush.backlog = s.backlog ∧ s.replConfFlush.master = s.master ∧
      s.replConfFlush.bgsaveChild = s.bgsaveChild ∧ s.replConfFlush.dbFile = s.dbFile ∧
      s.replConfFlush.replConf.dbDumpAof = s.replConf.dbDumpAof ∧
      s.replConfFlush.diskConf = s.replConfFlush.replConf := by
  refine ⟨rfl, rfl, rfl, rfl, rfl, ?_, rfl⟩
  rw [replConfFlush]
  cases s.master with
  | none => rfl
  | some link =>
    by_cases named : link.replRunId ≠ "" ∧ link.replAof.name ≠ none
    · simp only [if_pos named]
    · simp only [if_neg named]

/-- In particular the AOF. -/
theorem replConfFlush_files (s : Server m) : s.replConfFlush.aofFiles = s.aofFiles := rfl

/-- A flush records the position of a link that has one. -/
theorem replConfFlush_link {s : Server m} {link : MasterLink} (linked : s.master = some link)
    (named : link.replRunId ≠ "" ∧ link.replAof.name ≠ none) :
    s.replConfFlush.replConf.masterRunId = link.replRunId ∧ s.replConfFlush.replConf.masterAof = link.replAof := by
  simp only [replConfFlush, linked, if_pos named, and_self]

/-- Without such a link a flush writes the configuration as it is. -/
theorem replConfFlush_alone {s : Server m}
    (alone : ∀ link, s.master = some link → ¬ (link.replRunId ≠ "" ∧ link.replAof.name ≠ none)) :
    s.replConfFlush.replConf = s.replConf := by
  cases linked : s.master with
  | none => simp only [replConfFlush, linked]
  | some link => simp only [replConfFlush, linked, if_neg (alone link linked)]

/-- A call of `bgsave` changes nothing, or it forks a child that has the store. -/
theorem bgsave_cases (s : Server m) : s.bgsave = s ∨ 0 < s.buckets.size ∧ s.bgsaveChild = none ∧
    s.bgsave = { s with bgsaveChild := some ⟨s.buckets.dump, s.backlog.aofFile.curRollFile⟩ } := by
  rw [bgsave]
  split
  · exact Or.inl rfl
  · rename_i something
    cases running : s.bgsaveChild with
    | some child => exact Or.inl rfl
    | none => exact Or.inr ⟨Nat.pos_of_ne_zero something, rfl, rfl⟩

/-- What the end of a full sync changes: the store and the database file, and nothing else. -/
theorem loadReceived_frame (s : Server m) (file : List Features) :
    (s.loadReceived file).buckets = Buckets.load file ∧ (s.loadReceived file).loadDb = Buckets.load file ∧
      (s.loadReceived file).backlog = s.backlog ∧ (s.loadReceived file).replConf = s.replConf := by
  exact ⟨rfl, rfl, rfl, rfl⟩

/-- The store has performed packets, and they have been fed. Nothing else of the server has
changed, but for its link to a master. -/
structure Fed (parse : ParseHset) (s : Server m) (packs : List Pack) (s' : Server m) : Prop where
  performed : performPacks parse s.buckets.cells packs = some s'.buckets.cells
  written : s.buckets.Written → s'.buckets.Written
  waiting : ∀ pending, s.backlog.Waiting pending → s'.backlog.Waiting (pending ++ packs)
  file : s'.backlog.aofFile = s.backlog.aofFile
  same : s' = { s with buckets := s'.buckets, backlog := s'.backlog, master := s'.master }

/-- Nothing has been performed. -/
theorem Fed.refl (parse : ParseHset) (s : Server m) : Fed parse s [] s where
  performed := rfl
  written := fun written => written
  waiting := fun pending waiting => (List.append_nil pending).symm ▸ waiting
  file := rfl
  same := rfl

/-- The AOF is as before. -/
theorem Fed.files {parse : ParseHset} {s s' : Server m} {packs : List Pack} (fed : Fed parse s packs s') :
    s'.aofFiles = s.aofFiles :=
  congrArg RotateFileStream.files fed.file

/-- First some packets, then others. -/
theorem Fed.trans {parse : ParseHset} {s middle s' : Server m} {front back : List Pack}
    (first : Fed parse s front middle) (second : Fed parse middle back s') : Fed parse s (front ++ back) s' where
  performed := performAll_join first.performed second.performed
  written := fun written => second.written (first.written written)
  waiting := fun pending waiting => List.append_assoc pending front back ▸
    second.waiting _ (first.waiting pending waiting)
  file := second.file.trans first.file
  same := by
    have same := second.same
    rw [first.same] at same
    exact same

/-- One packet executed and fed. -/
theorem execFeed_spec {parse : ParseHset} {clock : Clock} {tid : Fin m} {s s' : Server m} {p : Pack}
    (ran : s.execFeed parse clock tid p = some s') : Fed parse s [p] s' ∧ s'.master = s.master := by
  obtain ⟨⟨db, reply⟩, executed, rfl⟩ := Option.map_eq_some_iff.mp ran
  have performed := execPack_cells parse clock s.buckets p
  rw [executed] at performed
  refine ⟨⟨?_, fun written => execPack_written written executed, fun pending waiting => waiting.feed tid p,
    rfl, rfl⟩, rfl⟩
  rw [performPacks, performAll_cons, ← performed]
  rfl

/-- The `hset` of a client does to the store what its packet does in a replay, unless it is
refused. -/
def ExecutesOwn (parse : ParseHset) (s : Server m) (p : Pack) (beyond : List UInt8) : Prop :=
  ∀ args w, Link.liveArgs p = some args → (parse (args.bytes beyond)).write = some w →
    Accepts Object.type (s.buckets.cells w.1) w.2 →
      performPacks parse s.buckets.cells [p] = some (assign Object.type s.buckets.cells w)

/-- So it does when the second header is a copy of the first. -/
theorem executesOwn_copied {parse : ParseHset} {s : Server m} {p : Pack} (type : p.type = clientHset)
    (copied : p.body.take 8 = p.head) (beyond : List UInt8) : s.ExecutesOwn parse p beyond := by
  intro args w live written _
  rw [Link.liveArgs_hset p type, (Link.hsetExec_own_iff p type).mpr copied] at live
  obtain rfl := Option.some.inj live
  rw [Link.ownArgs_bytes] at written
  have writes : Writes parse p w := ⟨type, written⟩
  rw [performPacks, performAll_cons, perform, writes.entry]
  rfl

/-- Then `CommandHset::exec` is the `hset` of the packet's own arguments. -/
theorem commandHset_copied (parse : ParseHset) (clock : Clock) (tid : Fin m) (s : Server m) {p : Pack}
    (type : p.type = clientHset) (copied : p.body.take 8 = p.head) (beyond : List UInt8) :
    s.commandHset parse clock tid p beyond = s.hset parse clock tid p := by
  rw [commandHset, Link.liveArgs_hset p type, (Link.hsetExec_own_iff p type).mpr copied, hset, execPack_hset type]
  simp only [Option.bind_eq_bind, Option.bind_some, Link.ownArgs_bytes]
  have executed : execMsg parse clock (Link.ownArgs p).flag (Link.ownArgs p).type s.buckets p.body =
      execMsg parse clock p.flag p.type s.buckets p.body := rfl
  rw [executed]
  cases execMsg parse clock p.flag p.type s.buckets p.body with
  | none => rfl
  | some result =>
    rw [Option.bind_some, Option.map_some]
    split <;> rfl

/-- `CommandHset::exec` changes the store and the backlog at most. -/
theorem commandHset_frame {parse : ParseHset} {clock : Clock} {tid : Fin m} {s s' : Server m} {p : Pack}
    {beyond : List UInt8} (ran : s.commandHset parse clock tid p beyond = some s') :
    s' = { s with buckets := s'.buckets, backlog := s'.backlog } := by
  simp only [commandHset, Option.bind_eq_bind, Option.bind_eq_some_iff] at ran
  obtain ⟨args, _, result, _, ended⟩ := ran
  by_cases code : result.2.errcode = 0
  · rw [if_pos code] at ended
    obtain rfl := Option.some.inj ended
    rfl
  · rw [if_neg code] at ended
    obtain rfl := Option.some.inj ended
    rfl

/-- A client's `hset` that does what its packet does, or is refused: then no cell changes and
nothing is fed. -/
theorem commandHset_spec {parse : ParseHset} {clock : Clock} {tid : Fin m} {s s' : Server m} {p : Pack}
    {beyond : List UInt8} (own : s.ExecutesOwn parse p beyond)
    (ran : s.commandHset parse clock tid p beyond = some s') :
    s'.master = s.master ∧ (Fed parse s [p] s' ∨ Fed parse s [] s') := by
  simp only [commandHset, Option.bind_eq_bind, Option.bind_eq_some_iff] at ran
  obtain ⟨args, live, ⟨db, reply⟩, executed, ended⟩ := ran
  have kept : s.buckets.Written → db.Written := fun written => execMsg_written written executed
  by_cases code : reply.errcode = 0
  · rw [if_pos code] at ended
    obtain rfl := Option.some.inj ended
    obtain ⟨w, writes, accepts, cells⟩ := execMsg_accepted executed code
    refine ⟨rfl, .inl ⟨?_, kept, fun pending waiting => waiting.feed tid p, rfl, rfl⟩⟩
    rw [cells]
    exact own args w live writes accepts
  · rw [if_neg code] at ended
    obtain rfl := Option.some.inj ended
    have cells := execMsg_refused executed code
    refine ⟨rfl, .inr ⟨congrArg some cells.symm, kept, ?_, rfl, rfl⟩⟩
    exact fun pending waiting => (List.append_nil pending).symm ▸ waiting

/-- The commands of a `REPL_MULTI` message are performed and fed, and the link takes
the position behind them. -/
theorem commandAof_spec {parse : ParseHset} {clock : Clock} {tid : Fin m} {s s' : Server m} {message : Multi}
    (ran : s.commandAof parse clock tid message = some s') :
    Fed parse s message.commands s' ∧
      s'.master = s.master.map fun link => { link with replAof := message.aof } := by
  obtain ⟨last, fed, rfl⟩ := Option.map_eq_some_iff.mp ran
  have all : ∀ (packs : List Pack) (s last : Server m), packs.foldlM (execFeed parse clock tid) s = some last →
      Fed parse s packs last ∧ last.master = s.master := by
    intro packs
    induction packs with
    | nil =>
      intro s last fed
      obtain rfl := Option.some.inj fed
      exact ⟨Fed.refl parse s, rfl⟩
    | cons p packs ih =>
      intro s last fed
      rw [List.foldlM_cons] at fed
      obtain ⟨middle, first, rest⟩ := Option.bind_eq_some_iff.mp fed
      obtain ⟨one, link⟩ := execFeed_spec first
      obtain ⟨others, link'⟩ := ih middle last rest
      exact ⟨one.trans others, link'.trans link⟩
  obtain ⟨performed, link⟩ := all message.commands s last fed
  refine ⟨⟨performed.performed, performed.written, performed.waiting, performed.file, ?_⟩, ?_⟩
  · have same := performed.same
    rw [same]
  · rw [← link]

/-- What a merge does: the waiting packets are added to the AOF, and nothing waits;
when there were some, the configuration is flushed. -/
theorem merge_spec {s : Server m} {pending : List Pack} (waiting : s.backlog.Waiting pending) (sorting : Sorting m) :
    ∃ b : Backlog m, b.Waiting [] ∧ Extends s.aofFiles pending b.aofFile.files ∧
      s.merge sorting =
        if pending = [] then { s with backlog := b } else { s with backlog := b }.replConfFlush := by
  obtain ⟨waits, _, goes⟩ := waiting.merge sorting
  refine ⟨_, waits, waiting.grown sorting, ?_⟩
  rw [merge]
  by_cases nothing : pending = []
  · rw [if_pos nothing, if_neg fun flushed => goes.mp flushed nothing]
  · rw [if_neg nothing, if_pos (goes.mpr nothing)]

/-- What the next merge writes is what waits. -/
theorem unmerged_eq {s : Server m} {pending : List Pack} (waiting : s.backlog.Waiting pending) (sorting : Sorting m) :
    s.unmerged sorting = pending :=
  waiting.unmerged sorting

/-- A start recovers the store from the position on disk, opens a new file behind the
AOF, and takes the configuration from the disk, with a new identifier when it has none. -/
theorem init_spec {parse : ParseHset} {clock : Clock} {genRandomID : String} {s s' : Server m}
    (started : s.init parse clock genRandomID = some s') :
    s.recover parse clock s.diskConf.dbDumpAof = some s'.buckets ∧
      s'.backlog = Backlog.initializer s.backlog.aofFile.rotateAofFileSize s.aofFiles ∧
      s'.replConf = { s.diskConf with runId := s'.replConf.runId } ∧ s'.master = none ∧ s'.bgsaveChild = none ∧
      s'.dbFile = s.dbFile ∧ s'.confFile = s.confFile := by
  obtain ⟨conf, same⟩ : ∃ runId, (if s.diskConf.runId = "" then { s.diskConf with runId := genRandomID }
      else s.diskConf) = { s.diskConf with runId := runId } := by
    by_cases unnamed : s.diskConf.runId = ""
    · exact ⟨genRandomID, if_pos unnamed⟩
    · exact ⟨s.diskConf.runId, if_neg unnamed⟩
  simp only [init, same] at started
  obtain ⟨buckets, recovered, rfl⟩ := Option.map_eq_some_iff.mp started
  exact ⟨recovered, rfl, rfl, rfl, rfl, rfl, rfl⟩

/-- The files that a start finds stay as they are: a new AOF file is opened behind the
others, and nothing waits. -/
theorem init_files {parse : ParseHset} {clock : Clock} {genRandomID : String} {s s' : Server m}
    (started : s.init parse clock genRandomID = some s') :
    s'.backlog.Waiting [] ∧ s'.aofFiles ≠ [] ∧ Extends s.aofFiles [] s'.aofFiles ∧ s'.diskConf = s.diskConf ∧
      s'.loadDb = s.loadDb := by
  obtain ⟨_, backlog, _, _, _, dbFile, confFile⟩ := init_spec started
  have files : s'.aofFiles = (RotateFileStream.rotateInit s.backlog.aofFile.rotateAofFileSize s.aofFiles).files := by
    rw [aofFiles, backlog]
    rfl
  refine ⟨?_, ?_, ?_, ?_, ?_⟩
  · rw [backlog]
    exact Backlog.Waiting.initializer _ _
  · rw [files]
    exact List.concat_ne_nil _ _
  · rw [files]
    exact Extends.of_grows (RotateFileStream.rotateInit_grows _ _)
  · rw [diskConf, confFile]
    rfl
  · rw [loadDb, dbFile]
    rfl

/-- What a recovery gives, from a position with `n` packets before it. -/
theorem recover_spec (parse : ParseHset) (clock : Clock) {s : Server m} {position : FileState} {n : Nat}
    (located : At s.aofFiles position n) :
    (s.recover parse clock position).map Buckets.cells =
      performPacks parse s.loadDb.cells (s.aofFiles.flatten.drop n) := by
  rw [recover, replayAof_cells, located.loadAof]

end Server

end Naruto.Replication
