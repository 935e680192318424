import Naruto.Replication.SlaveCoverage

/-!
# The database file of a master

A master dumps its store while commands wait for a merge, and records the end of its
AOF at the fork. The dump then has the effects of more commands than the position
has before it. In every run of a master the file covers its position nevertheless,
measured against what the AOF becomes later: as long as no crash loses commands that
the dump has, the waiting commands are what the AOF goes on with. The clients' `hset`s
are those that do to the store what their packets do in a replay.
-/

namespace Naruto.Replication.MasterDump

open Naruto.Theory Naruto.Utils Naruto.Sink Naruto.Database Naruto.Command FirstSync

variable {k : Nat}

/-- The store covers a position of this AOF and the commands that wait. -/
def CoversIn (parse : ParseHset) (files : List (List Pack)) (pending : List Pack) (store : Cell → Option Object)
    (position : FileState) : Prop :=
  ∃ n, At files position n ∧ Covers Object.type (entryOf parse) (files.flatten ++ pending) n store

section CoversIn

variable {parse : ParseHset} {files files' : List (List Pack)} {pending packs : List Pack}
  {store : Cell → Option Object} {position : FileState}

/-- More commands wait. -/
theorem CoversIn.feed (covers : CoversIn parse files pending store position) :
    CoversIn parse files (pending ++ packs) store position := by
  obtain ⟨n, located, covers⟩ := covers
  refine ⟨n, located, ?_⟩
  rw [← List.append_assoc]
  apply covers.extend
  rw [List.length_append]
  exact Nat.le_trans located.le (Nat.le_add_right _ _)

/-- What waits is merged. -/
theorem CoversIn.merge (covers : CoversIn parse files pending store position)
    (extended : Extends files pending files') : CoversIn parse files' [] store position := by
  obtain ⟨n, located, covers⟩ := covers
  refine ⟨n, extended.positions position n located, ?_⟩
  rw [extended.log, List.append_nil]
  exact covers

/-- The live store covers every position. -/
theorem CoversIn.fork (live : performPacks parse (fun _ => none) (files.flatten ++ pending) = some store) {n : Nat}
    (located : At files position n) : CoversIn parse files pending store position := by
  refine ⟨n, located, Covers.of_take (j := (files.flatten ++ pending).length) ?_ ?_⟩
  · rw [List.take_length]
    exact live
  · rw [List.length_append]
    exact Nat.le_trans located.le (Nat.le_add_right _ _)

end CoversIn

/-- The positions recorded in memory and on disk are covered. -/
structure Fits (parse : ParseHset) (s : Server k) (pending : List Pack) (store : Cell → Option Object) : Prop where
  memory : CoversIn parse s.aofFiles pending store s.replConf.dbDumpAof
  disk : CoversIn parse s.aofFiles pending store s.diskConf.dbDumpAof

/-- The invariant: AOF and waiting commands have led from an empty store to the live one;
the database file covers both recorded positions, and so does the file of a running
child, together with the position of its fork. -/
structure Inv (parse : ParseHset) (s : Server k) (pending : List Pack) : Prop where
  waiting : s.backlog.Waiting pending
  opened : s.aofFiles ≠ []
  written : s.buckets.Written
  live : performPacks parse (fun _ => none) (s.aofFiles.flatten ++ pending) = some s.buckets.cells
  loads : ∀ cell o, s.loadDb.cells cell = some o → o.Written
  file : Fits parse s pending s.loadDb.cells
  child : ∀ child, s.bgsaveChild = some child → (∀ cell o, (Buckets.load child.tmpFile).cells cell = some o → o.Written) ∧
    Fits parse s pending (Buckets.load child.tmpFile).cells ∧
    CoversIn parse s.aofFiles pending (Buckets.load child.tmpFile).cells child.aofBeforeBgsave

namespace Inv

variable {parse : ParseHset} {sorting : Sorting k} {s s' : Server k} {pending packs : List Pack}

/-- Commands are performed and fed. Every dump that is recorded covers the place it did, of a
longer log. -/
theorem feed (inv : Inv parse s pending) (fed : s.Fed parse packs s') : Inv parse s' (pending ++ packs) := by
  have files : s'.aofFiles = s.aofFiles := fed.files
  have same := fed.same
  have fits : ∀ store, Fits parse s pending store → Fits parse s' (pending ++ packs) store := by
    intro store fits
    constructor
    · rw [files, same]
      exact fits.memory.feed
    · rw [files, same]
      exact fits.disk.feed
  have loadDb : s'.loadDb = s.loadDb := by rw [same]; rfl
  constructor
  · exact fed.waiting pending inv.waiting
  · rw [files]
    exact inv.opened
  · exact fed.written inv.written
  · rw [files, ← List.append_assoc]
    exact performAll_join inv.live fed.performed
  · rw [loadDb]
    exact inv.loads
  · rw [loadDb]
    exact fits _ inv.file
  · intro child running
    rw [same] at running
    obtain ⟨loads, both, own⟩ := inv.child child running
    refine ⟨loads, fits _ both, ?_⟩
    rw [files]
    exact own.feed

/-- The configuration is flushed: the disk follows the memory. Every condition on the position
in memory becomes one on the disk. -/
theorem confFlush (inv : Inv parse s pending) : Inv parse s.replConfFlush pending := by
  obtain ⟨buckets, backlog, _, running, dbFile, position, disk⟩ := s.replConfFlush_frame
  have files := s.replConfFlush_files
  have loadDb : s.replConfFlush.loadDb = s.loadDb := by
    rw [Server.loadDb, dbFile]
    rfl
  have fits : ∀ store, Fits parse s pending store → Fits parse s.replConfFlush pending store := by
    intro store fits
    constructor
    · rw [files, position]
      exact fits.memory
    · rw [files, disk, position]
      exact fits.memory
  constructor
  · rw [backlog]
    exact inv.waiting
  · rw [files]
    exact inv.opened
  · rw [buckets]
    exact inv.written
  · rw [files, buckets]
    exact inv.live
  · rw [loadDb]
    exact inv.loads
  · rw [loadDb]
    exact fits _ inv.file
  · intro child runs
    rw [running] at runs
    obtain ⟨loads, both, own⟩ := inv.child child runs
    refine ⟨loads, fits _ both, ?_⟩
    rw [files]
    exact own

/-- What waits is merged. The waiting commands become part of the log, and positions stay where
they are. -/
theorem merge (inv : Inv parse s pending) (sorting : Sorting k) : Inv parse (s.merge sorting) [] := by
  obtain ⟨b, waits, extended, result⟩ := s.merge_spec inv.waiting sorting
  have merged : Inv parse { s with backlog := b } [] := by
    have files : ({ s with backlog := b } : Server k).aofFiles.flatten = s.aofFiles.flatten ++ pending := extended.log
    have fits : ∀ store, Fits parse s pending store → Fits parse { s with backlog := b } [] store :=
      fun store fits => ⟨fits.memory.merge extended, fits.disk.merge extended⟩
    constructor
    · exact waits
    · exact List.concat_ne_nil _ _
    · exact inv.written
    · rw [files, List.append_nil]
      exact inv.live
    · exact inv.loads
    · exact fits _ inv.file
    · intro child runs
      obtain ⟨loads, both, own⟩ := inv.child child runs
      exact ⟨loads, fits _ both, own.merge extended⟩
  rw [result]
  by_cases nothing : pending = []
  · rw [if_pos nothing]
    exact merged
  · rw [if_neg nothing]
    exact merged.confFlush

/-- A fork dumps the store, which covers every position. The log up to any position has led to
the store before the fork, and the store holds what all of it leads to. -/
theorem bgsave (inv : Inv parse s pending) : Inv parse s.bgsave pending := by
  rcases s.bgsave_cases with same | ⟨_, _, forks⟩
  · rw [same]
    exact inv
  · rw [forks]
    refine ⟨inv.waiting, inv.opened, inv.written, inv.live, inv.loads, ⟨inv.file.memory, inv.file.disk⟩, ?_⟩
    intro child forked
    obtain rfl := Option.some.inj forked
    have dump := s.buckets.cells_load_dump inv.written
    obtain ⟨_, memory, _⟩ := inv.file.memory
    obtain ⟨_, disk, _⟩ := inv.file.disk
    rw [dump]
    exact ⟨inv.written, ⟨CoversIn.fork inv.live memory, CoversIn.fork inv.live disk⟩,
      CoversIn.fork inv.live s.backlog.aofFile.curRollFile_at⟩

/-- A finished child brings its file and its position. -/
theorem bgsaveFinish (inv : Inv parse s pending) : Inv parse s.onBgsaveFinish pending := by
  rw [Server.onBgsaveFinish]
  cases running : s.bgsaveChild with
  | none => exact inv
  | some child =>
    obtain ⟨loads, both, own⟩ := inv.child child running
    exact ⟨inv.waiting, inv.opened, inv.written, inv.live, loads, ⟨own, both.disk⟩, fun _ runs => by cases runs⟩

/-- A start when nothing waited recovers the live store: the commands behind a position that
the file covers lead to it. -/
theorem crash (inv : Inv parse s []) {clock : Clock} {genRandomID : String}
    (started : s.init parse clock genRandomID = some s') : Inv parse s' [] := by
  obtain ⟨recovered, _, conf, _, running, _⟩ := Server.init_spec started
  obtain ⟨waiting, opened, extended, disk, loadDb⟩ := Server.init_files started
  have cells : s'.buckets.cells = s.buckets.cells := by
    obtain ⟨n, located, covers⟩ := inv.file.disk
    have replayed := s.recover_spec parse clock located
    have live := inv.live
    rw [List.append_nil] at covers live
    rw [recovered, Option.map_some, performPacks, covers.resume live] at replayed
    exact Option.some.inj replayed
  have kept : CoversIn parse s'.aofFiles [] s.loadDb.cells s.diskConf.dbDumpAof := inv.file.disk.merge extended
  constructor
  · exact waiting
  · exact opened
  · exact replayAof_written inv.loads recovered
  · rw [extended.log, cells, List.append_nil]
    exact inv.live
  · rw [loadDb]
    exact inv.loads
  · rw [loadDb]
    constructor
    · rw [conf]
      exact kept
    · rw [disk]
      exact kept
  · exact fun _ runs => by cases running.symm.trans runs

/-- A server in an empty directory. Its AOF has no commands, so an empty store covers it. -/
theorem fresh (parse : ParseHset) (rotateAofFileSize : Nat) (runId : String) :
    Inv parse (Server.fresh rotateAofFileSize runId : Server k) [] := by
  have opened : (Server.fresh rotateAofFileSize runId : Server k).aofFiles ≠ [] := List.cons_ne_nil _ _
  have empty : (Server.fresh rotateAofFileSize runId : Server k).loadDb.cells = fun _ => none := Buckets.load_nil
  have covers : CoversIn parse (Server.fresh rotateAofFileSize runId : Server k).aofFiles [] (fun _ => none)
      ⟨none, 0⟩ := ⟨0, at_start _ opened, Covers.empty⟩
  constructor
  · exact Backlog.Waiting.initializer _ _
  · exact opened
  · exact fun _ _ stored => by cases stored
  · rfl
  · rw [empty]
    exact fun _ _ stored => by cases stored
  · rw [empty]
    exact ⟨covers, covers⟩
  · exact fun _ runs => by cases runs

end Inv

/-- An accepted `hset` does to the store what its packet does in a replay, and a crash loses
no commands: nothing waits for a merge. -/
def Faithful (parse : ParseHset) (sorting : Sorting k) (s : Server k) : Event k → Prop
  | .hset _ _ pack beyond => s.ExecutesOwn parse pack beyond
  | .crash _ _ => s.unmerged sorting = []
  | _ => True

/-- Every event keeps the invariant when what clients send executes its own packet and a crash
loses no commands. One lemma for each event. -/
theorem Inv.step {parse : ParseHset} {sorting : Sorting k} {s s' : Server k} {pending : List Pack}
    (inv : Inv parse s pending) {event : Event k} (faithful : Faithful parse sorting s event)
    (stepped : FirstSync.step parse sorting s event = some s') : ∃ pending', Inv parse s' pending' := by
  cases event with
  | hset tid clock pack beyond =>
    rcases FirstSync.hset_fed faithful stepped with fed | fed
    · exact ⟨_, inv.feed fed⟩
    · exact ⟨_, inv.feed fed⟩
  | multi tid clock message => exact ⟨_, inv.feed (Server.commandAof_spec stepped).1⟩
  | merge =>
    obtain rfl := Option.some.inj stepped
    exact ⟨[], inv.merge sorting⟩
  | bgsave =>
    obtain rfl := Option.some.inj stepped
    exact ⟨pending, inv.bgsave⟩
  | bgsaveFinish =>
    obtain rfl := Option.some.inj stepped
    exact ⟨pending, inv.bgsaveFinish⟩
  | confFlush =>
    obtain rfl := Option.some.inj stepped
    exact ⟨pending, inv.confFlush⟩
  | crash clock genRandomID =>
    have nothing : s.unmerged sorting = [] := faithful
    rw [s.unmerged_eq inv.waiting] at nothing
    subst nothing
    exact ⟨[], inv.crash stepped⟩

/-- In every run of a master whose accepted `hset`s do what their packets do, and in which a
crash loses no commands, it serves its slaves: what `FULLSYNC` announces is covered by the
file, for every history that its AOF becomes with what waits and with later commands. -/
theorem serves_always (parse : ParseHset) (sorting : Sorting k) (rotateAofFileSize : Nat) (runId : String)
    (events : List (Event k)) (master : Server k)
    (ran : run (FirstSync.step parse sorting) (Server.fresh rotateAofFileSize runId) events = some master)
    (faithful : Along (FirstSync.step parse sorting) (Faithful parse sorting) (Server.fresh rotateAofFileSize runId) events)
    (h : History parse) (later : List Pack)
    (extended : Extends master.aofFiles (master.unmerged sorting ++ later) h.files) : Slave.Serves h master := by
  have preserved : ∀ (s : Server k) (event : Event k) (s' : Server k), (∃ pending, Inv parse s pending) →
      Faithful parse sorting s event → FirstSync.step parse sorting s event = some s' →
      ∃ pending, Inv parse s' pending := by
    rintro s event s' ⟨pending, inv⟩ faithful stepped
    exact inv.step faithful stepped
  obtain ⟨pending, inv⟩ := run_invariant (fun s => ∃ pending, Inv parse s pending) preserved _ master events
    ⟨[], Inv.fresh parse rotateAofFileSize runId⟩ faithful ran
  intro _
  obtain ⟨n, located, covers⟩ := inv.file.memory
  rw [master.unmerged_eq inv.waiting] at extended
  refine ⟨n, extended.positions _ n located, ?_⟩
  rw [CoversTo, extended.log, ← List.append_assoc]
  apply covers.extend
  rw [List.length_append]
  exact Nat.le_trans located.le (Nat.le_add_right _ _)

end Naruto.Replication.MasterDump
