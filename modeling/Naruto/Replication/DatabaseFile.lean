import Naruto.Replication.Replication
import Naruto.Theory.Runs

/-!
# The database file and its position

A bgsave and the end of a full sync both replace the database file. The first also
records the position of the AOF at its fork; the second leaves the recorded
position as it is, and the server's own AOF with the commands from before. File
and position belong together when loading the file and replaying the AOF from the
position leads to the store, up to commands that no merge has written yet. Every
operation keeps this, but for two: the full sync only when its position has nothing behind
it, and the `hset` of a client, which executes other arguments than a replay does, only when
both do the same to the store.
-/

namespace Naruto.Replication.DatabaseFile

open Naruto.Theory Naruto.Utils Naruto.Sink Naruto.Database Naruto.Command

variable {m : Nat}

/-- What happens to a server. The memory behind the packet of a client is what it is. A full
sync brings the dump of the master's store. -/
inductive Event (m : Nat)
  | hset (tid : Fin m) (clock : Clock) (pack : Pack) (beyond : List UInt8)
  | multi (tid : Fin m) (clock : Clock) (message : Multi)
  | merge
  | bgsave
  | bgsaveFinish
  | confFlush
  | fullSync (db : Buckets) (written : db.Written)
  | restart (clock : Clock) (genRandomID : String)

/-- One event. A restart is clean: `stop()`, then a new process. Each is one function of the
server; a full sync brings any store whose objects write a field. -/
def step (parse : ParseHset) (sorting : Sorting m) (s : Server m) : Event m → Option (Server m)
  | .hset tid clock pack beyond =>
    if pack.type = clientHset then s.commandHset parse clock tid pack beyond else none
  | .multi tid clock message => s.commandAof parse clock tid message
  | .merge => some (s.merge sorting)
  | .bgsave => some s.bgsave
  | .bgsaveFinish => some s.onBgsaveFinish
  | .confFlush => some s.replConfFlush
  | .fullSync db _ => some (s.loadReceived db.dump)
  | .restart clock genRandomID => s.stop.init parse clock genRandomID

/-- The database file and a position belong together: what a start would recover
from them, followed by what the next merge writes, is the store. -/
def BelongsAt (parse : ParseHset) (sorting : Sorting m) (clock : Clock) (s : Server m) (position : FileState) : Prop :=
  ∃ db, s.recover parse clock position = some db ∧
    performPacks parse db.cells (s.unmerged sorting) = some s.buckets.cells

/-- The database file belongs to the recorded position, in memory, where
`CommandPsync` reads it, and on disk, where a start reads it. -/
def Belongs (parse : ParseHset) (sorting : Sorting m) (clock : Clock) (s : Server m) : Prop :=
  BelongsAt parse sorting clock s s.replConf.dbDumpAof ∧ BelongsAt parse sorting clock s s.diskConf.dbDumpAof

/-- An `hset` that is accepted does to the store what its packet does in a replay. A full sync
ends on a clean log: nothing stands behind the recorded position, nothing waits for a merge,
and no child is dumping. -/
def Suits (parse : ParseHset) (sorting : Sorting m) (s : Server m) : Event m → Prop
  | .hset _ _ pack beyond => s.ExecutesOwn parse pack beyond
  | .fullSync _ _ => loadAof s.aofFiles s.replConf.dbDumpAof = [] ∧ loadAof s.aofFiles s.diskConf.dbDumpAof = [] ∧
      s.unmerged sorting = [] ∧ s.bgsaveChild = none
  | _ => True

section Leads

variable {parse : ParseHset} {files files' : List (List Pack)} {pending packs : List Pack}
  {base live live' : Cell → Option Object} {position : FileState}

/-- The log behind a position and the waiting commands lead from one store to another. -/
def Leads (parse : ParseHset) (files : List (List Pack)) (pending : List Pack)
    (base live : Cell → Option Object) (position : FileState) : Prop :=
  ∃ n, At files position n ∧ performPacks parse base (files.flatten.drop n ++ pending) = some live

/-- Commands that are performed and fed lead on. -/
theorem Leads.feed (leads : Leads parse files pending base live position)
    (performed : performPacks parse live packs = some live') :
    Leads parse files (pending ++ packs) base live' position := by
  obtain ⟨n, located, before⟩ := leads
  refine ⟨n, located, ?_⟩
  rw [← List.append_assoc]
  exact performAll_join before performed

/-- A merge moves the waiting commands into the log. -/
theorem Leads.merge (leads : Leads parse files pending base live position) (extended : Extends files pending files') :
    Leads parse files' [] base live position := by
  obtain ⟨n, located, performed⟩ := leads
  refine ⟨n, extended.positions position n located, ?_⟩
  rw [extended.log, List.append_nil, List.drop_append_of_le_length located.le]
  exact performed

/-- The same log leads from the store it has led to back to that store. -/
theorem Leads.again (leads : Leads parse files pending base live position) :
    Leads parse files pending live live position := by
  obtain ⟨n, located, performed⟩ := leads
  exact ⟨n, located, performAll_again performed⟩

/-- So do the waiting commands alone, from the end of the log. -/
theorem Leads.fork (leads : Leads parse files pending base live position) {end' : FileState}
    (located : At files end' files.flatten.length) : Leads parse files pending live live end' := by
  obtain ⟨n, _, performed⟩ := leads
  obtain ⟨middle, _, rest⟩ := performAll_split performed
  refine ⟨_, located, ?_⟩
  rw [List.drop_length]
  exact performAll_again rest

/-- A position with nothing behind it, and nothing waiting, suits every store. -/
theorem Leads.clean (leads : Leads parse files pending base live position) (behind : loadAof files position = [])
    (store : Cell → Option Object) : Leads parse files [] store store position := by
  obtain ⟨n, located, _⟩ := leads
  refine ⟨n, located, ?_⟩
  rw [← located.loadAof, behind]
  rfl

/-- A start opens a new file and keeps the position. -/
theorem Leads.reopen (leads : Leads parse files pending base live position) (extended : Extends files [] files')
    (recovered : performPacks parse base (loadAof files position) = some live') :
    Leads parse files' [] base live' position := by
  obtain ⟨n, located, _⟩ := leads
  refine ⟨n, extended.positions position n located, ?_⟩
  rw [extended.log, List.append_nil, List.append_nil, ← located.loadAof]
  exact recovered

end Leads

/-- A dump fits both recorded positions, and its objects can be dumped again. -/
structure Fits (parse : ParseHset) (s : Server m) (pending : List Pack) (dump : Cell → Option Object) : Prop where
  written : ∀ cell o, dump cell = some o → o.Written
  memory : Leads parse s.aofFiles pending dump s.buckets.cells s.replConf.dbDumpAof
  disk : Leads parse s.aofFiles pending dump s.buckets.cells s.diskConf.dbDumpAof

/-- The invariant. The database file fits the recorded positions; so does the file
of a running child, which also fits the position of its fork. -/
structure Inv (parse : ParseHset) (s : Server m) (pending : List Pack) : Prop where
  waiting : s.backlog.Waiting pending
  written : s.buckets.Written
  file : Fits parse s pending s.loadDb.cells
  child : ∀ child, s.bgsaveChild = some child → Fits parse s pending (Buckets.load child.tmpFile).cells ∧
    Leads parse s.aofFiles pending (Buckets.load child.tmpFile).cells s.buckets.cells child.aofBeforeBgsave

namespace Inv

variable {parse : ParseHset} {sorting : Sorting m} {s s' : Server m} {pending packs : List Pack}

/-- Commands that the store performs and that are fed keep the invariant. The log behind every
position grows by the commands, and the store has performed them. -/
theorem feed (inv : Inv parse s pending) (fed : s.Fed parse packs s') : Inv parse s' (pending ++ packs) := by
  have files : s'.aofFiles = s.aofFiles := fed.files
  have same := fed.same
  have fits : ∀ dump, Fits parse s pending dump → Fits parse s' (pending ++ packs) dump := by
    intro dump fits
    refine ⟨fits.written, ?_, ?_⟩
    · rw [files, same]
      exact fits.memory.feed fed.performed
    · rw [files, same]
      exact fits.disk.feed fed.performed
  refine ⟨fed.waiting pending inv.waiting, fed.written inv.written, ?_, fun child running => ?_⟩
  · rw [same]
    have file' := fits _ inv.file
    rw [same] at file'
    exact file'
  · have running' : s.bgsaveChild = some child := by
      rw [same] at running
      exact running
    obtain ⟨both, own⟩ := inv.child child running'
    refine ⟨fits _ both, ?_⟩
    rw [files]
    exact own.feed fed.performed

/-- A flush of the configuration puts the position in memory on disk. The log behind that one
has led to the store already. -/
theorem confFlush (inv : Inv parse s pending) : Inv parse s.replConfFlush pending := by
  obtain ⟨buckets, backlog, _, running, dbFile, position, disk⟩ := s.replConfFlush_frame
  have files := s.replConfFlush_files
  have file : s.replConfFlush.loadDb = s.loadDb := by
    rw [Server.loadDb, dbFile]
    rfl
  have fits : ∀ dump, Fits parse s pending dump → Fits parse s.replConfFlush pending dump := by
    intro dump fits
    refine ⟨fits.written, ?_, ?_⟩
    · rw [files, buckets, position]
      exact fits.memory
    · rw [files, buckets, disk, position]
      exact fits.memory
  refine ⟨backlog ▸ inv.waiting, buckets ▸ inv.written, file ▸ fits _ inv.file, fun child runs => ?_⟩
  obtain ⟨both, own⟩ := inv.child child (running ▸ runs)
  refine ⟨fits _ both, ?_⟩
  rw [files, buckets]
  exact own

/-- A merge moves the waiting commands into the AOF. They were behind every position before, and
are behind it in the AOF now. A flush follows when something was merged. -/
theorem merge (inv : Inv parse s pending) (sorting : Sorting m) : Inv parse (s.merge sorting) [] := by
  obtain ⟨b, waits, extended, result⟩ := s.merge_spec inv.waiting sorting
  have merged : Inv parse { s with backlog := b } [] := by
    have fits : ∀ dump, Fits parse s pending dump → Fits parse { s with backlog := b } [] dump := fun dump fits =>
      ⟨fits.written, fits.memory.merge extended, fits.disk.merge extended⟩
    refine ⟨waits, inv.written, fits _ inv.file, fun child runs => ?_⟩
    obtain ⟨both, own⟩ := inv.child child runs
    exact ⟨fits _ both, own.merge extended⟩
  rw [result]
  by_cases nothing : pending = []
  · rw [if_pos nothing]
    exact merged
  · rw [if_neg nothing]
    exact merged.confFlush

/-- A fork dumps the store, which fits all positions: the log behind them has led to it. -/
theorem bgsave (inv : Inv parse s pending) : Inv parse s.bgsave pending := by
  rcases s.bgsave_cases with same | ⟨_, _, forks⟩
  · rw [same]
    exact inv
  · rw [forks]
    refine ⟨inv.waiting, inv.written, ⟨inv.file.written, inv.file.memory, inv.file.disk⟩, fun child forked => ?_⟩
    obtain rfl := Option.some.inj forked
    have dump := s.buckets.cells_load_dump inv.written
    rw [dump]
    exact ⟨⟨inv.written, inv.file.memory.again, inv.file.disk.again⟩,
      inv.file.memory.fork s.backlog.aofFile.curRollFile_at⟩

/-- A finished child brings its file and its position. -/
theorem bgsaveFinish (inv : Inv parse s pending) : Inv parse s.onBgsaveFinish pending := by
  rw [Server.onBgsaveFinish]
  cases running : s.bgsaveChild with
  | none => exact inv
  | some child =>
    obtain ⟨both, own⟩ := inv.child child running
    exact ⟨inv.waiting, inv.written, ⟨both.written, own, both.disk⟩, fun _ runs => by cases runs⟩

/-- A full sync on a clean log: the received file alone leads to the store. -/
theorem fullSync (inv : Inv parse s pending) (db : Buckets) (written : db.Written)
    (clean : Suits parse sorting s (.fullSync db written)) : Inv parse (s.loadReceived db.dump) [] := by
  obtain ⟨memory, disk, nothing, idle⟩ := clean
  rw [s.unmerged_eq inv.waiting] at nothing
  subst nothing
  have loaded := db.cells_load_dump written
  have received : ∀ cell o, (Buckets.load db.dump).cells cell = some o → o.Written := by
    rw [loaded]
    exact written
  exact ⟨inv.waiting, received, ⟨received, inv.file.memory.clean memory _, inv.file.disk.clean disk _⟩,
    fun child runs => by cases idle.symm.trans runs⟩

/-- A restart recovers the store from the position on disk, which memory then holds. What the
recovery leads to is what the log behind the position says. -/
theorem restart (inv : Inv parse s pending) {clock : Clock} {genRandomID : String}
    (started : s.stop.init parse clock genRandomID = some s') : Inv parse s' [] := by
  have stopped : s.stop = { s with master := none } := by
    rw [Server.stop, Backlog.stop, Backlog.backlogFlush, if_pos inv.waiting.flushed]
  rw [stopped] at started
  obtain ⟨replayed, _, conf, _, running, _⟩ := Server.init_spec started
  obtain ⟨waiting, _, extended, disk, loadDb⟩ := Server.init_files started
  have cells := replayAof_cells parse clock s.loadDb (loadAof s.aofFiles s.diskConf.dbDumpAof)
  have performed : performPacks parse s.loadDb.cells (loadAof s.aofFiles s.diskConf.dbDumpAof) =
      some s'.buckets.cells := cells.symm.trans (congrArg (Option.map Buckets.cells) replayed)
  have leads := inv.file.disk.reopen extended performed
  constructor
  · exact waiting
  · exact replayAof_written inv.file.written replayed
  · rw [loadDb]
    constructor
    · exact inv.file.written
    · rw [conf]
      exact leads
    · rw [disk]
      exact leads
  · exact fun _ runs => by cases running.symm.trans runs

/-- Every step that suits keeps the invariant: one case for each event. -/
theorem step (inv : Inv parse s pending) (event : Event m) (suits : Suits parse sorting s event)
    (stepped : step parse sorting s event = some s') : ∃ pending', Inv parse s' pending' := by
  cases event with
  | hset tid clock pack beyond =>
    obtain ⟨_, ran⟩ := Option.ite_none_right_eq_some.mp stepped
    rcases (Server.commandHset_spec suits ran).2 with fed | fed
    · exact ⟨_, inv.feed fed⟩
    · exact ⟨_, inv.feed fed⟩
  | multi tid clock message => exact ⟨_, inv.feed (s.commandAof_spec stepped).1⟩
  | merge =>
    obtain rfl := Option.some.inj stepped
    exact ⟨[], inv.merge sorting⟩
  | bgsave =>
    obtain rfl := Option.some.inj stepped
    exact ⟨pending, inv.bgsave⟩
  | bgsaveFinish =>
    obtain rfl := Option.some.inj stepped
    exact ⟨pending, inv.bgsaveFinish⟩
  | confFlush =>
    obtain rfl := Option.some.inj stepped
    exact ⟨pending, inv.confFlush⟩
  | fullSync db written =>
    obtain rfl := Option.some.inj stepped
    exact ⟨[], inv.fullSync db written suits⟩
  | restart clock genRandomID => exact ⟨[], inv.restart stepped⟩

/-- The invariant holds in an empty directory. -/
theorem fresh (parse : ParseHset) (rotateAofFileSize : Nat) (runId : String) :
    Inv parse (Server.fresh rotateAofFileSize runId : Server m) [] := by
  have empty := Buckets.load_nil
  have located : At (Server.fresh rotateAofFileSize runId : Server m).aofFiles ⟨none, 0⟩ 0 :=
    at_start _ (by simp [Server.aofFiles, Server.fresh, Backlog.initializer, RotateFileStream.files])
  have leads : Leads parse (Server.fresh rotateAofFileSize runId : Server m).aofFiles [] (Buckets.load []).cells
      Buckets.empty.cells ⟨none, 0⟩ := by
    rw [empty]
    exact ⟨0, located, rfl⟩
  have written : ∀ cell o, Buckets.empty.cells cell = some o → o.Written := fun _ _ stored => by cases stored
  refine ⟨Backlog.Waiting.initializer _ _, written, ⟨?_, leads, leads⟩, fun _ runs => by cases runs⟩
  exact empty.symm ▸ written

/-- A position that leads to the store belongs to the database file. -/
theorem belongsAt (inv : Inv parse s pending) (sorting : Sorting m) (clock : Clock) {position : FileState}
    (leads : Leads parse s.aofFiles pending s.loadDb.cells s.buckets.cells position) :
    BelongsAt parse sorting clock s position := by
  obtain ⟨n, located, performed⟩ := leads
  obtain ⟨middle, front, back⟩ := performAll_split performed
  have recovered := (s.recover_spec parse clock located).trans front
  obtain ⟨db, found, rfl⟩ := Option.map_eq_some_iff.mp recovered
  refine ⟨db, found, ?_⟩
  rw [s.unmerged_eq inv.waiting]
  exact back

end Inv

/-- In every run from an empty directory in which accepted `hset`s do what their packets do
and full syncs end on a clean log, the database file belongs to the recorded position in every
state.

Proof: the invariant says of the file, and of the one that a child is writing, that the log
behind each position with what waits leads from it to the store; every event that suits keeps
it. A fork begins with the store itself and the end of the log, a completion hands its file
and position on together, and a merge or a restart only moves what waits into the log. -/
theorem belongs_always (parse : ParseHset) (sorting : Sorting m) (clock : Clock) (rotateAofFileSize : Nat)
    (runId : String) (events : List (Event m)) (last : Server m)
    (suits : Along (step parse sorting) (Suits parse sorting) (Server.fresh rotateAofFileSize runId) events)
    (ran : run (step parse sorting) (Server.fresh rotateAofFileSize runId) events = some last) :
    Belongs parse sorting clock last := by
  obtain ⟨pending, inv⟩ := run_invariant (fun s => ∃ pending, Inv parse s pending)
    (fun _ event _ inv suits stepped => inv.elim fun _ inv => inv.step event suits stepped) _ last events
    ⟨[], Inv.fresh parse rotateAofFileSize runId⟩ suits ran
  exact ⟨inv.belongsAt sorting clock inv.file.memory, inv.belongsAt sorting clock inv.file.disk⟩

/-- A slave's first full sync, and then an `hset` of a client that is merged. -/
def syncedThenSet : List (Event 1) :=
  [.fullSync (keyedDb 1 2) (keyedDb_written 1 2), .confFlush, .hset (Fin.last 0) ⟨0, 0⟩ copiedPack [], .merge]

/-- The file belongs to the position in the end, and there is a packet in the AOF. -/
theorem belongs_first_sync : ∃ last : Server 1,
    run (step keyedHset (Sorting.insertion 1)) (Server.fresh 2 "a") syncedThenSet = some last ∧
      last.aofFiles.flatten = [copiedPack] ∧ Belongs keyedHset (Sorting.insertion 1) ⟨0, 0⟩ last := by
  have ends : (run (step keyedHset (Sorting.insertion 1)) (Server.fresh 2 "a") syncedThenSet).map
      (fun s => s.aofFiles.flatten) = some [copiedPack] := by decide +kernel
  obtain ⟨last, ran, files⟩ := Option.map_eq_some_iff.mp ends
  have clean : Suits keyedHset (Sorting.insertion 1) (Server.fresh 2 "a")
      (.fullSync (keyedDb 1 2) (keyedDb_written 1 2)) := by
    refine ⟨?_, ?_, ?_, rfl⟩ <;> decide +kernel
  have own : ∀ s : Server 1, Suits keyedHset (Sorting.insertion 1) s (.hset (Fin.last 0) ⟨0, 0⟩ copiedPack []) :=
    fun s => Server.executesOwn_copied rfl (by decide) []
  refine ⟨last, ran, files, belongs_always keyedHset (Sorting.insertion 1) ⟨0, 0⟩ 2 "a" syncedThenSet last ?_ ran⟩
  exact ⟨clean, fun _ _ => ⟨trivial, fun s _ => ⟨own s, fun _ _ => ⟨trivial, fun _ _ => trivial⟩⟩⟩⟩

/-- A server sets a key and merges, and then receives a full sync in which the key
has another value: its own AOF, replayed on the received file, sets it back. -/
theorem sync_leaves_aof :
    ¬ ∀ (events : List (Event 1)) (last : Server 1),
      run (step keyedHset (Sorting.insertion 1)) (Server.fresh 2 "a") events = some last →
        Belongs keyedHset (Sorting.insertion 1) ⟨0, 0⟩ last := by
  intro always
  have ran : (run (step keyedHset (Sorting.insertion 1)) (Server.fresh 2 "a")
      [.hset 0 ⟨0, 0⟩ copiedPack [], .merge]).map (fun s => (s.aofFiles, s.replConf.dbDumpAof,
        s.unmerged (Sorting.insertion 1))) = some ([[copiedPack]], ⟨none, 0⟩, []) := by
    decide +kernel
  obtain ⟨s, ran, same⟩ := Option.map_eq_some_iff.mp ran
  obtain ⟨files, position, waiting⟩ : s.aofFiles = [[copiedPack]] ∧ s.replConf.dbDumpAof = ⟨none, 0⟩ ∧
      s.unmerged (Sorting.insertion 1) = [] := by
    simpa using same
  have synced : run (step keyedHset (Sorting.insertion 1)) (Server.fresh 2 "a")
      ([.hset 0 ⟨0, 0⟩ copiedPack [], .merge] ++ [.fullSync (keyedDb 17 2) (keyedDb_written 17 2)]) =
        some (s.loadReceived (keyedDb 17 2).dump) := by
    rw [run_append, ran]
    rfl
  obtain ⟨⟨db, recovered, live⟩, _⟩ := always _ _ synced
  obtain ⟨buckets, loadDb, backlog, replConf⟩ := s.loadReceived_frame (keyedDb 17 2).dump
  have received := Buckets.cells_load_dump _ (keyedDb_written 17 2)
  have files' : (s.loadReceived (keyedDb 17 2).dump).aofFiles = [[copiedPack]] := by
    rw [Server.aofFiles, backlog]
    exact files
  have nothing : (s.loadReceived (keyedDb 17 2).dump).unmerged (Sorting.insertion 1) = [] := by
    rw [Server.unmerged, backlog]
    exact waiting
  have located : At (s.loadReceived (keyedDb 17 2).dump).aofFiles ⟨none, 0⟩ 0 :=
    at_start _ (files' ▸ List.cons_ne_nil _ _)
  have replayed := Server.recover_spec keyedHset ⟨0, 0⟩ located
  have log : [[copiedPack]].flatten.drop 0 = [copiedPack] := rfl
  rw [replConf, position] at recovered
  rw [recovered, loadDb, received, files', log, perform_copiedPack, Option.map_some] at replayed
  rw [nothing, buckets, received] at live
  have cell := congrFun ((Option.some.inj replayed).symm.trans (Option.some.inj live)) ([17], [])
  rw [keyedDb_cells, assign, Function.update_self, Function.update_self] at cell
  exact absurd cell (by decide)

end Naruto.Replication.DatabaseFile
