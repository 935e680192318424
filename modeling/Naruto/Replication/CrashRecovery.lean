import Naruto.Replication.Replication
import Naruto.Theory.Runs

/-!
# Recovery after a crash

A crash loses what no merge has written yet. A dump, however, holds all commands
accepted at its fork, also those that are not in the AOF, and the position
recorded with it reaches the disk only with a later flush of the configuration.
A start then replays the AOF from an older position on a store that is ahead of
it. Cells that occur in this part of the AOF go back to its end; other cells stay
as the dump has them. This is a state of the history exactly as far as the
commands the dump is ahead by keep these two kinds of cells in order.

A client's `hset` is taken to be executed with its packet's own arguments and fed in one step.
-/

namespace Naruto.Replication.CrashRecovery

open Naruto.Theory Naruto.Utils Naruto.Sink Naruto.Database Naruto.Command

variable {m : Nat}

/-- A server with the commands it has accepted since its first start, and how many
of them the database file and the file of a running child hold. -/
structure Ledger (m : Nat) where
  server : Server m
  history : List Pack
  dumped : Nat
  forked : Nat

/-- What happens to a server that is never a slave. -/
inductive Event (m : Nat)
  | hset (tid : Fin m) (clock : Clock) (pack : Pack)
  | merge
  | bgsave
  | bgsaveFinish
  | confFlush

/-- One event. Only successful commands are part of a history. Beside the server the ledger
notes how much of the history a fork has seen and how much the database file holds. -/
def step (parse : ParseHset) (sorting : Sorting m) (s : Ledger m) : Event m → Option (Ledger m)
  | .hset tid clock pack => do
    let result ← execPack parse clock s.server.buckets pack
    if pack.type = clientHset ∧ result.2.errcode = 0 then
      let server ← s.server.hset parse clock tid pack
      some { s with server := server, history := s.history ++ [pack] }
    else none
  | .merge => some { s with server := s.server.merge sorting }
  | .bgsave => some
    { s with
      server := s.server.bgsave
      forked := if s.server.bgsaveChild.isNone then s.history.length else s.forked }
  | .bgsaveFinish => some
    { s with
      server := s.server.onBgsaveFinish
      dumped := if s.server.bgsaveChild.isSome then s.forked else s.dumped }
  | .confFlush => some { s with server := s.server.replConfFlush }

/-- A server in an empty directory. -/
def Ledger.fresh (rotateAofFileSize : Nat) (runId : String) : Ledger m :=
  ⟨Server.fresh rotateAofFileSize runId, [], 0, 0⟩

/-- The commands by which the database file is ahead of the AOF. -/
def Ledger.ahead (s : Ledger m) : List Pack := (s.history.take s.dumped).drop s.server.aofFiles.flatten.length

/-- The commands of the AOF behind the position on disk. -/
def Ledger.behind (s : Ledger m) : List Pack := loadAof s.server.aofFiles s.server.diskConf.dbDumpAof

/-- The commands by which the database file is ahead fall into two parts: first those
on cells that do not occur in the AOF behind the position on disk, then those on
cells that do. -/
def Ordered (parse : ParseHset) (s : Ledger m) : Prop :=
  ∃ front back, s.ahead = front ++ back ∧
    (∀ w ∈ writesOf (entryOf parse) front, ∀ l ∈ writesOf (entryOf parse) s.behind, w.1 ≠ l.1) ∧
    ∀ w ∈ writesOf (entryOf parse) back, ∃ l ∈ writesOf (entryOf parse) s.behind, l.1 = w.1

/-- A position is not behind a dump that holds so many commands. -/
def Reaches (files : List (List Pack)) (position : FileState) (commands : Nat) : Prop :=
  ∃ n, At files position n ∧ n ≤ commands

/-- A position keeps its place while the log is extended. -/
theorem Reaches.extend {files files' : List (List Pack)} {more : List Pack} {position : FileState} {commands : Nat}
    (reaches : Reaches files position commands) (extended : Extends files more files') :
    Reaches files' position commands := by
  obtain ⟨n, located, order⟩ := reaches
  exact ⟨n, extended.positions position n located, order⟩

/-- A file holds the first commands of the history. -/
structure Holds (parse : ParseHset) (history : List Pack) (db : Buckets) (commands : Nat) : Prop where
  le : commands ≤ history.length
  cells : performPacks parse Buckets.empty.cells (history.take commands) = some db.cells

/-- It goes on to do so while the history grows. -/
theorem Holds.snoc {parse : ParseHset} {history : List Pack} {db : Buckets} {commands : Nat}
    (holds : Holds parse history db commands) (p : Pack) : Holds parse (history ++ [p]) db commands := by
  refine ⟨?_, ?_⟩
  · rw [List.length_append]
    exact Nat.le_add_right_of_le holds.le
  · rw [List.take_append_of_le_length holds.le]
    exact holds.cells

/-- The invariant. The history is the AOF and what waits, and has led to the store.
The database file and a child's file hold the first commands of it, and no recorded
position is behind these. -/
structure Inv (parse : ParseHset) (s : Ledger m) (pending : List Pack) : Prop where
  waiting : s.server.backlog.Waiting pending
  logged : s.history = s.server.aofFiles.flatten ++ pending
  store : Holds parse s.history s.server.buckets s.history.length
  written : s.server.buckets.Written
  writes : ∀ p ∈ s.history, ∃ w, Writes parse p w
  accepted : Accepted Object.type Buckets.empty.cells (writesOf (entryOf parse) s.history)
  file : Holds parse s.history s.server.loadDb s.dumped
  memory : Reaches s.server.aofFiles s.server.replConf.dbDumpAof s.dumped
  disk : Reaches s.server.aofFiles s.server.diskConf.dbDumpAof s.dumped
  child : ∀ child, s.server.bgsaveChild = some child →
    Holds parse s.history (Buckets.load child.tmpFile) s.forked ∧
      Reaches s.server.aofFiles s.server.replConf.dbDumpAof s.forked ∧
      Reaches s.server.aofFiles s.server.diskConf.dbDumpAof s.forked ∧
      Reaches s.server.aofFiles child.aofBeforeBgsave s.forked

namespace Inv

variable {parse : ParseHset} {sorting : Sorting m} {s s' : Ledger m} {pending : List Pack}

/-- The store is what the writes of the history make of an empty store. -/
theorem replayed (inv : Inv parse s pending) :
    s.server.buckets.cells = replay Object.type Buckets.empty.cells (writesOf (entryOf parse) s.history) := by
  have cells := inv.store.cells
  rw [List.take_length] at cells
  exact (performAll_eq cells).1

/-- An accepted command joins the history. The number of commands in the file stays, and the
log ends one command later. -/
theorem hset (inv : Inv parse s pending) {tid : Fin m} {clock : Clock} {pack : Pack} {db : Buckets}
    {reply : CommandReply} {server : Server m} (type : pack.type = clientHset)
    (executed : execPack parse clock s.server.buckets pack = some (db, reply)) (code : reply.errcode = 0)
    (ran : s.server.hset parse clock tid pack = some server) :
    Inv parse { s with server := server, history := s.history ++ [pack] } (pending ++ [pack]) := by
  have feeds : s.server.execFeed parse clock tid pack = some server := by
    rw [Server.hset, executed, Option.map_some, if_pos code] at ran
    rw [Server.execFeed, executed]
    exact ran
  have fed : s.server.Fed parse [pack] server := (Server.execFeed_spec feeds).1
  obtain ⟨w, writes, accepts, _⟩ := execPack_accepted type executed code
  have files : server.aofFiles = s.server.aofFiles := fed.files
  have same := fed.same
  have performed := inv.store.cells
  rw [List.take_length] at performed
  refine ⟨fed.waiting pending inv.waiting, ?_, ⟨Nat.le_refl _, ?_⟩, fed.written inv.written, ?_, ?_, ?_, ?_, ?_, ?_⟩
  · rw [files, inv.logged, List.append_assoc]
  · rw [List.take_length]
    exact performAll_join performed fed.performed
  · intro p member
    rcases List.mem_append.mp member with before | last
    · exact inv.writes p before
    · obtain rfl := List.mem_singleton.mp last
      exact ⟨w, writes⟩
  · rw [writesOf_append, accepted_append, ← inv.replayed]
    have one : writesOf (entryOf parse) [pack] = [w] := by
      rw [writesOf, List.flatMap_singleton, writes.entry]
      rfl
    rw [one]
    exact ⟨inv.accepted, accepts, trivial⟩
  · have file := inv.file.snoc pack
    rw [same]
    exact file
  · rw [files, same]
    exact inv.memory
  · rw [files, same]
    exact inv.disk
  · intro child running
    have running' : s.server.bgsaveChild = some child := by
      rw [same] at running
      exact running
    obtain ⟨holds, memory, disk, own⟩ := inv.child child running'
    rw [files, same]
    exact ⟨holds.snoc pack, memory, disk, own⟩

/-- A flush of the configuration puts the position in memory on disk. Store, log and database
file stay, and memory's position leads to the store. -/
theorem confFlush (inv : Inv parse s pending) :
    Inv parse { s with server := s.server.replConfFlush } pending := by
  obtain ⟨buckets, backlog, _, running, dbFile, position, disk⟩ := s.server.replConfFlush_frame
  have files := s.server.replConfFlush_files
  have file : s.server.replConfFlush.loadDb = s.server.loadDb := by
    rw [Server.loadDb, dbFile]
    rfl
  refine ⟨backlog ▸ inv.waiting, ?_, buckets ▸ inv.store, buckets ▸ inv.written, inv.writes, inv.accepted,
    file ▸ inv.file, ?_, ?_, fun child runs => ?_⟩
  · rw [files]
    exact inv.logged
  · rw [files, position]
    exact inv.memory
  · rw [files, disk, position]
    exact inv.memory
  · obtain ⟨holds, memory, _, own⟩ := inv.child child (running ▸ runs)
    rw [files, disk, position]
    exact ⟨holds, memory, memory, own⟩

/-- A merge moves the waiting commands into the AOF. The positions still count what they did,
and the log behind them is longer. A flush follows when something was merged. -/
theorem merge (inv : Inv parse s pending) (sorting : Sorting m) :
    Inv parse { s with server := s.server.merge sorting } [] := by
  obtain ⟨b, waits, extended, result⟩ := s.server.merge_spec inv.waiting sorting
  have merged : Inv parse { s with server := { s.server with backlog := b } } [] := by
    refine ⟨waits, ?_, inv.store, inv.written, inv.writes, inv.accepted, inv.file, inv.memory.extend extended,
      inv.disk.extend extended, fun child runs => ?_⟩
    · rw [List.append_nil, inv.logged]
      exact extended.log.symm
    · obtain ⟨holds, memory, disk, own⟩ := inv.child child runs
      exact ⟨holds, memory.extend extended, disk.extend extended, own.extend extended⟩
  rw [result]
  by_cases nothing : pending = []
  · rw [if_pos nothing]
    exact merged
  · rw [if_neg nothing]
    exact merged.confFlush

/-- A fork dumps the store, which holds the whole history. So the fork is at the end of the
history, and no position is behind it. -/
theorem bgsave (inv : Inv parse s pending) :
    Inv parse
      { s with
        server := s.server.bgsave
        forked := if s.server.bgsaveChild.isNone then s.history.length else s.forked } pending := by
  have idle : Inv parse
      { s with forked := if s.server.bgsaveChild.isNone then s.history.length else s.forked } pending := by
    refine ⟨inv.waiting, inv.logged, inv.store, inv.written, inv.writes, inv.accepted, inv.file, inv.memory,
      inv.disk, fun child runs => ?_⟩
    have kept : s.server.bgsaveChild.isNone = false := by
      rw [show s.server.bgsaveChild = some child from runs]
      rfl
    rw [kept]
    exact inv.child child runs
  have whole : ∀ {position commands}, Reaches s.server.aofFiles position commands → commands ≤ s.history.length →
      Reaches s.server.aofFiles position s.history.length := by
    rintro position commands ⟨n, located, order⟩ le
    exact ⟨n, located, order.trans le⟩
  rcases s.server.bgsave_cases with same | ⟨_, running, forks⟩
  · rw [same]
    exact idle
  · rw [forks, running]
    refine ⟨inv.waiting, inv.logged, inv.store, inv.written, inv.writes, inv.accepted, inv.file, inv.memory,
      inv.disk, fun child forked => ?_⟩
    obtain rfl := Option.some.inj forked
    refine ⟨⟨Nat.le_refl _, ?_⟩, whole inv.memory inv.file.le, whole inv.disk inv.file.le,
      ⟨_, s.server.backlog.aofFile.curRollFile_at, ?_⟩⟩
    · dsimp only
      rw [s.server.buckets.cells_load_dump inv.written]
      exact inv.store.cells
    · have logged := congrArg List.length inv.logged
      rw [List.length_append] at logged
      exact Nat.le_of_add_right_le (Nat.le_of_eq logged.symm)

/-- A finished child brings its file and its position. -/
theorem bgsaveFinish (inv : Inv parse s pending) :
    Inv parse
      { s with
        server := s.server.onBgsaveFinish
        dumped := if s.server.bgsaveChild.isSome then s.forked else s.dumped } pending := by
  rw [Server.onBgsaveFinish]
  cases running : s.server.bgsaveChild with
  | none => exact inv
  | some child =>
    obtain ⟨holds, memory, disk, own⟩ := inv.child child running
    exact ⟨inv.waiting, inv.logged, inv.store, inv.written, inv.writes, inv.accepted, holds, own, disk,
      fun _ runs => by cases runs⟩

/-- Every event keeps the invariant. One lemma for each event. -/
theorem step (inv : Inv parse s pending) (event : Event m) (stepped : step parse sorting s event = some s') :
    ∃ pending', Inv parse s' pending' := by
  cases event with
  | hset tid clock pack =>
    obtain ⟨⟨db, reply⟩, executed, rest⟩ := Option.bind_eq_some_iff.mp stepped
    by_cases success : pack.type = clientHset ∧ reply.errcode = 0
    · rw [if_pos success] at rest
      obtain ⟨server, ran, same⟩ := Option.bind_eq_some_iff.mp rest
      obtain rfl := Option.some.inj same
      exact ⟨_, inv.hset success.1 executed success.2 ran⟩
    · rw [if_neg success] at rest
      cases rest
  | merge =>
    obtain rfl := Option.some.inj stepped
    exact ⟨[], inv.merge sorting⟩
  | bgsave =>
    obtain rfl := Option.some.inj stepped
    exact ⟨pending, inv.bgsave⟩
  | bgsaveFinish =>
    obtain rfl := Option.some.inj stepped
    exact ⟨pending, inv.bgsaveFinish⟩
  | confFlush =>
    obtain rfl := Option.some.inj stepped
    exact ⟨pending, inv.confFlush⟩

/-- The invariant holds in an empty directory. -/
theorem fresh (parse : ParseHset) (rotateAofFileSize : Nat) (runId : String) :
    Inv parse (Ledger.fresh rotateAofFileSize runId : Ledger m) [] := by
  have start : Reaches (Ledger.fresh rotateAofFileSize runId : Ledger m).server.aofFiles ⟨none, 0⟩ 0 :=
    ⟨0, at_start _ (List.cons_ne_nil _ _), Nat.le_refl 0⟩
  refine ⟨Backlog.Waiting.initializer _ _, rfl, ⟨Nat.le_refl _, rfl⟩, (fun _ _ stored => by cases stored),
    fun _ member => absurd member List.not_mem_nil, trivial, ⟨Nat.le_refl _, ?_⟩, start, start,
    fun _ runs => by cases runs⟩
  exact congrArg some Buckets.load_nil.symm

/-- A database file that is not ahead of the AOF: the replay leads to the end of the AOF. The
file is the store behind some of the commands in the AOF, and those behind the position include
the rest, which can be performed again. -/
theorem recovered_within (inv : Inv parse s pending) (clock : Clock)
    (within : s.dumped ≤ s.server.aofFiles.flatten.length) :
    ∃ db, s.server.recover parse clock s.server.diskConf.dbDumpAof = some db ∧
      performPacks parse Buckets.empty.cells s.server.aofFiles.flatten = some db.cells := by
  obtain ⟨n, located, order⟩ := inv.disk
  have snapshot := inv.file.cells
  rw [inv.logged, List.take_append_of_le_length within] at snapshot
  have performed := inv.store.cells
  rw [List.take_length, inv.logged] at performed
  obtain ⟨t, whole, _⟩ := performAll_split performed
  have replayed : performPacks parse s.server.loadDb.cells (s.server.aofFiles.flatten.drop n) = some t :=
    performAll_drop order snapshot whole
  have recovered := s.server.recover_spec parse clock located
  rw [replayed] at recovered
  obtain ⟨db, found, cells⟩ := Option.map_eq_some_iff.mp recovered
  exact ⟨db, found, cells ▸ whole⟩

/-- A database file that is ahead by commands in order: the replay undoes the second part of
them. The cells of the replayed part have its last values, the others those of the first part
of the commands. -/
theorem recovered_ahead (inv : Inv parse s pending) (clock : Clock) {front back : List Pack}
    (ahead : s.history.take s.dumped = s.server.aofFiles.flatten ++ (front ++ back))
    (apart : ∀ w ∈ writesOf (entryOf parse) front, ∀ l ∈ writesOf (entryOf parse) s.behind, w.1 ≠ l.1)
    (inside : ∀ w ∈ writesOf (entryOf parse) back, ∃ l ∈ writesOf (entryOf parse) s.behind, l.1 = w.1) :
    ∃ db, s.server.recover parse clock s.server.diskConf.dbDumpAof = some db ∧
      performPacks parse Buckets.empty.cells (s.server.aofFiles.flatten ++ front) = some db.cells := by
  obtain ⟨n, located, _⟩ := inv.disk
  obtain ⟨passed, log, split, dropped⟩ : ∃ passed log, s.server.aofFiles.flatten = passed ++ log ∧
      s.server.aofFiles.flatten.drop n = log := ⟨_, _, (List.take_append_drop n _).symm, rfl⟩
  have behind : s.behind = log := located.loadAof.trans dropped
  rw [behind] at apart inside
  have writes : ∀ p ∈ s.history.take s.dumped, ∃ w, Writes parse p w := fun p there =>
    inv.writes p (List.mem_of_mem_take there)
  have accepted : Accepted Object.type Buckets.empty.cells (writesOf (entryOf parse) (s.history.take s.dumped)) := by
    have all := inv.accepted
    rw [← List.take_append_drop s.dumped s.history, writesOf_append, accepted_append] at all
    exact all.1
  have loaded := inv.file.cells
  rw [performPacks_writes _ writes] at loaded
  rw [ahead, split, List.append_assoc] at writes accepted loaded
  rw [writesOf_append, writesOf_append, writesOf_append] at accepted loaded
  have undone := ((accepted_append _ _ _).mp accepted).2.replay_behind apart inside
  have ahead' := Option.some.inj loaded
  rw [replay_append] at ahead'
  rw [ahead', ← replay_append] at undone
  have logWrites : ∀ p ∈ log, ∃ w, Writes parse p w := fun p there =>
    writes p (List.mem_append_right _ (List.mem_append_left _ there))
  have recovered := s.server.recover_spec parse clock located
  rw [dropped, performPacks_writes _ logWrites, undone] at recovered
  obtain ⟨db, found, cells⟩ := Option.map_eq_some_iff.mp recovered
  refine ⟨db, found, ?_⟩
  have frontWrites : ∀ p ∈ passed ++ (log ++ front), ∃ w, Writes parse p w := by
    intro p there
    rw [← List.append_assoc, ← List.append_assoc] at writes
    rw [← List.append_assoc] at there
    exact writes p (List.mem_append_left _ there)
  rw [cells, split, List.append_assoc, performPacks_writes _ frontWrites, writesOf_append, writesOf_append]

/-- When the commands by which the database file is ahead are in order, a recovery leads to a
state of the history that is not before the end of the AOF. Either the file is not ahead of the
AOF, or what it is ahead by splits in two. -/
theorem recovered (inv : Inv parse s pending) (ordered : Ordered parse s) (clock : Clock) :
    ∃ db k, s.server.recover parse clock s.server.diskConf.dbDumpAof = some db ∧
      s.server.aofFiles.flatten <+: s.history.take k ∧
      performPacks parse Buckets.empty.cells (s.history.take k) = some db.cells := by
  rcases Nat.le_total s.dumped s.server.aofFiles.flatten.length with within | beyond
  · obtain ⟨db, found, performed⟩ := inv.recovered_within clock within
    have aof : s.history.take s.server.aofFiles.flatten.length = s.server.aofFiles.flatten := by
      rw [inv.logged, List.take_left]
    refine ⟨db, s.server.aofFiles.flatten.length, found, ?_, ?_⟩
    · exact aof.symm ▸ List.prefix_refl _
    · exact aof.symm ▸ performed
  · obtain ⟨front, back, parts, apart, inside⟩ := ordered
    have ahead : s.history.take s.dumped = s.server.aofFiles.flatten ++ (front ++ back) := by
      have aof : (s.history.take s.dumped).take s.server.aofFiles.flatten.length = s.server.aofFiles.flatten := by
        rw [List.take_take, Nat.min_eq_left beyond, inv.logged, List.take_left]
      have joined := List.take_append_drop s.server.aofFiles.flatten.length (s.history.take s.dumped)
      rw [aof] at joined
      rw [← parts]
      exact joined.symm
    obtain ⟨db, found, performed⟩ := inv.recovered_ahead clock ahead apart inside
    have whole : s.history.take (s.server.aofFiles.flatten ++ front).length = s.server.aofFiles.flatten ++ front := by
      rw [← List.append_assoc] at ahead
      have within : s.server.aofFiles.flatten ++ front <+: s.history :=
        (ahead ▸ List.prefix_append _ _).trans (List.take_prefix _ _)
      exact (List.prefix_iff_eq_take.mp within).symm
    refine ⟨db, _, found, ?_, whole ▸ performed⟩
    rw [whole]
    exact List.prefix_append _ _

end Inv

/-- What a start finds after a crash. -/
def Recovers (parse : ParseHset) (clock : Clock) (genRandomID : String) (s : Ledger m) : Prop :=
  ∃ started k, s.server.init parse clock genRandomID = some started ∧
    s.server.aofFiles.flatten <+: s.history.take k ∧
    performPacks parse Buckets.empty.cells (s.history.take k) = some started.buckets.cells

/-- A start recovers the store from the position on disk. -/
theorem init_buckets (parse : ParseHset) (clock : Clock) (genRandomID : String) (s : Server m) :
    (s.init parse clock genRandomID).map Server.buckets = s.recover parse clock s.diskConf.dbDumpAof := by
  have position : (if s.diskConf.runId = "" then { s.diskConf with runId := genRandomID }
      else s.diskConf).dbDumpAof = s.diskConf.dbDumpAof := by
    split <;> rfl
  rw [Server.init, position, Option.map_map]
  exact Option.map_id'

/-- A crash at any point of a run, when the commands by which the database file is ahead of
the AOF are in order there: a start recovers a state of the history that contains every
command of the AOF.

Proof: file and AOF are both images of one history, which the invariant keeps with the number
of commands in each. When the file is not ahead, the replay ends with the AOF's commands. When
it is ahead, cells that occur in the replayed part go back to the AOF's end and the others
stay, which is the state behind the commands on the others exactly because these come last. -/
theorem recovers_prefix (parse : ParseHset) (sorting : Sorting m) (rotateAofFileSize : Nat) (runId : String)
    (events : List (Event m)) (last : Ledger m) (clock : Clock) (genRandomID : String)
    (ran : run (step parse sorting) (Ledger.fresh rotateAofFileSize runId) events = some last)
    (ordered : Ordered parse last) : Recovers parse clock genRandomID last := by
  obtain ⟨pending, inv⟩ := run_preserves (fun s => ∃ pending, Inv parse s pending)
    (fun _ event _ inv stepped => inv.elim fun _ inv => inv.step event stepped) _ last events
    ⟨[], Inv.fresh parse rotateAofFileSize runId⟩ ran
  obtain ⟨db, k, found, prefixed, performed⟩ := inv.recovered ordered clock
  have started := init_buckets parse clock genRandomID last.server
  rw [found] at started
  obtain ⟨server, done, rfl⟩ := Option.map_eq_some_iff.mp started
  exact ⟨server, k, done, prefixed, performed⟩

/-- A fork that finishes, on a server without a child. The database file is then the dump of the
store, and the position in memory the end of the AOF; the disk keeps the old one. -/
theorem run_dump (parse : ParseHset) (sorting : Sorting m) {s : Ledger m} {cell : Cell} {o : Object}
    (idle : s.server.bgsaveChild = none) (stored : s.server.buckets.cells cell = some o) :
    ∃ s', run (step parse sorting) s [.bgsave, .bgsaveFinish] = some s' ∧ s'.history = s.history ∧
      s'.dumped = s.history.length ∧ s'.server.aofFiles = s.server.aofFiles ∧ s'.server.diskConf = s.server.diskConf ∧
      s'.server.loadDb = Buckets.load s.server.buckets.dump := by
  have forked : s.server.bgsave =
      { s.server with bgsaveChild := some ⟨s.server.buckets.dump, s.server.backlog.aofFile.curRollFile⟩ } := by
    rw [Server.bgsave, if_neg (Nat.ne_of_gt (s.server.buckets.size_pos stored)), idle]
  have first : step parse sorting s .bgsave = some
      { s with
        server := { s.server with bgsaveChild := some ⟨s.server.buckets.dump, s.server.backlog.aofFile.curRollFile⟩ }
        forked := s.history.length } := by
    rw [step, forked, idle]
    rfl
  rw [run_cons, first]
  exact ⟨_, rfl, rfl, rfl, rfl, rfl, rfl⟩

/-- A key is set and merged, then another one is set. -/
def setBoth : List (Event 1) := [.hset 0 ⟨0, 0⟩ (keyedPack 1 1), .merge, .hset 0 ⟨0, 0⟩ (keyedPack 2 1)]

/-- A dump of this is finished before a crash: it is ahead by a command on a cell that
the AOF does not write. -/
theorem recovers_both : ∃ last : Ledger 1,
    run (step keyedHset (Sorting.insertion 1)) (Ledger.fresh 2 "a") (setBoth ++ [.bgsave, .bgsaveFinish]) =
      some last ∧ last.dumped = 2 ∧ Recovers keyedHset ⟨0, 0⟩ "b" last := by
  have ran : (run (step keyedHset (Sorting.insertion 1)) (Ledger.fresh 2 "a") setBoth).map
        (fun s => (s.history, s.server.aofFiles, s.server.diskConf.dbDumpAof, s.server.bgsaveChild)) =
      some ([keyedPack 1 1, keyedPack 2 1], [[keyedPack 1 1]], ⟨none, 0⟩, none) := by
    decide +kernel
  have cell : (run (step keyedHset (Sorting.insertion 1)) (Ledger.fresh 2 "a") setBoth).map
      (fun s => s.server.buckets.cells ([1], [])) = some (some (.string [1])) := by
    decide +kernel
  obtain ⟨s, ran, same⟩ := Option.map_eq_some_iff.mp ran
  obtain ⟨history, files, position, idle⟩ : s.history = [keyedPack 1 1, keyedPack 2 1] ∧
      s.server.aofFiles = [[keyedPack 1 1]] ∧ s.server.diskConf.dbDumpAof = ⟨none, 0⟩ ∧
      s.server.bgsaveChild = none := by
    simpa using same
  rw [ran] at cell
  obtain ⟨last, dumped, history', commands, files', conf', _⟩ :=
    run_dump keyedHset (Sorting.insertion 1) idle (Option.some.inj cell)
  have ran' : run (step keyedHset (Sorting.insertion 1)) (Ledger.fresh 2 "a")
      (setBoth ++ [.bgsave, .bgsaveFinish]) = some last := by
    rw [run_append, ran, Option.bind_some, dumped]
  have ordered : Ordered keyedHset last := by
    refine ⟨[keyedPack 2 1], [], ?_, ?_, fun w member => absurd member List.not_mem_nil⟩
    · rw [Ledger.ahead, commands, history', history, files', files]
      rfl
    · rw [Ledger.behind, files', files, conf', position]
      decide +kernel
  exact ⟨last, ran', commands.trans (congrArg List.length history),
    recovers_prefix keyedHset (Sorting.insertion 1) 2 "a" _ last ⟨0, 0⟩ "b" ran' ordered⟩

/-- A key is set and merged; the key is set again, and another one. -/
def setTwice : List (Event 1) :=
  [.hset 0 ⟨0, 0⟩ (keyedPack 1 1), .merge, .hset 0 ⟨0, 0⟩ (keyedPack 1 2), .hset 0 ⟨0, 0⟩ (keyedPack 2 1)]

/-- When a dump of this is finished before a crash, the AOF sets the first key back,
and the other one stays. -/
theorem recovers_mixture :
    ¬ ∀ (events : List (Event 1)) (last : Ledger 1),
      run (step keyedHset (Sorting.insertion 1)) (Ledger.fresh 2 "a") events = some last →
        Recovers keyedHset ⟨0, 0⟩ "b" last := by
  intro always
  have ran : (run (step keyedHset (Sorting.insertion 1)) (Ledger.fresh 2 "a") setTwice).map
        (fun s => (s.history, s.server.aofFiles, s.server.diskConf.dbDumpAof, s.server.bgsaveChild)) =
      some ([keyedPack 1 1, keyedPack 1 2, keyedPack 2 1], [[keyedPack 1 1]], ⟨none, 0⟩, none) := by
    decide +kernel
  obtain ⟨s, ran, same⟩ := Option.map_eq_some_iff.mp ran
  obtain ⟨history, files, position, idle⟩ : s.history = [keyedPack 1 1, keyedPack 1 2, keyedPack 2 1] ∧
      s.server.aofFiles = [[keyedPack 1 1]] ∧ s.server.diskConf.dbDumpAof = ⟨none, 0⟩ ∧
      s.server.bgsaveChild = none := by
    simpa using same
  obtain ⟨pending, inv⟩ := run_preserves (fun s => ∃ pending, Inv keyedHset s pending)
    (fun _ event _ inv stepped => inv.elim fun _ inv => inv.step event stepped) _ s _
    ⟨[], Inv.fresh keyedHset 2 "a"⟩ ran
  have store := inv.store.cells
  rw [List.take_length, history, perform_keyedPack_cons, perform_keyedPack_cons, perform_keyedPack] at store
  have cells := (Option.some.inj store).symm
  have stored : s.server.buckets.cells ([1], []) = some (.string [2]) := by
    rw [cells]
    decide +kernel
  obtain ⟨last, dumped, history', _, files', conf', loaded⟩ :=
    run_dump keyedHset (Sorting.insertion 1) idle stored
  have ran' : run (step keyedHset (Sorting.insertion 1)) (Ledger.fresh 2 "a")
      (setTwice ++ [.bgsave, .bgsaveFinish]) = some last := by
    rw [run_append, ran, Option.bind_some, dumped]
  obtain ⟨started, k, init, prefixed, performed⟩ := always _ last ran'
  have recovered := init_buckets keyedHset ⟨0, 0⟩ "b" last.server
  have located : At last.server.aofFiles ⟨none, 0⟩ 0 := at_start _ (by rw [files', files]; exact List.cons_ne_nil _ _)
  have replayed := last.server.recover_spec keyedHset ⟨0, 0⟩ located
  have log : [[keyedPack 1 1]].flatten.drop 0 = [keyedPack 1 1] := rfl
  rw [init, conf', position, Option.map_some] at recovered
  rw [← recovered, loaded, Buckets.cells_load_dump _ inv.written, cells, files', files, log,
    perform_keyedPack] at replayed
  rw [files', files, history', history] at prefixed
  rw [history', history] at performed
  rw [Option.some.inj replayed] at performed
  rcases k with _ | _ | _ | k
  · exact absurd prefixed (by decide)
  · rw [show [keyedPack 1 1, keyedPack 1 2, keyedPack 2 1].take (0 + 1) = [keyedPack 1 1] from rfl,
      perform_keyedPack] at performed
    exact absurd (congrFun (Option.some.inj performed) ([2], [])) (by decide +kernel)
  · rw [show [keyedPack 1 1, keyedPack 1 2, keyedPack 2 1].take (0 + 1 + 1) = [keyedPack 1 1, keyedPack 1 2] from rfl,
      perform_keyedPack_cons, perform_keyedPack] at performed
    exact absurd (congrFun (Option.some.inj performed) ([1], [])) (by decide +kernel)
  · rw [List.take_of_length_le (Nat.le_add_left 3 k), perform_keyedPack_cons, perform_keyedPack_cons,
      perform_keyedPack] at performed
    exact absurd (congrFun (Option.some.inj performed) ([1], [])) (by decide +kernel)

end Naruto.Replication.CrashRecovery
