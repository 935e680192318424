import Naruto.Replication.FirstSync
import Naruto.Theory.Coverage

/-!
# What a slave holds

A slave that makes no dumps of its own recovers its store from the database file it
has received and all of its own AOF. What it holds is then three things: the store
that a start would recover, the commands that wait for a merge, and the live store
that these lead to. A merge makes the recovered store the live one. The stores are
measured against the AOF of the master: a position of the master is covered by a
store that has the effects of all its commands before the position.
-/

namespace Naruto.Replication

open Naruto.Theory Naruto.Utils Naruto.Sink Naruto.Database Naruto.Command SlavePosition

variable {m : Nat} {parse : ParseHset}

/-- The AOF of a master in the end: it has a file, and its commands can be performed. -/
structure History (parse : ParseHset) where
  files : List (List Pack)
  opened : files ≠ []
  replayable : ∃ store, performPacks parse (fun _ => none) files.flatten = some store

/-- The store has the effects of the first `n` commands. -/
def CoversTo (h : History parse) (store : Cell → Option Object) (n : Nat) : Prop :=
  Covers Object.type (entryOf parse) h.files.flatten n store

/-- The store has the effects of all commands before the position. -/
def CoversAt (h : History parse) (store : Cell → Option Object) (position : FileState) : Prop :=
  ∃ n, At h.files position n ∧ CoversTo h store n

section Coverage

variable {h : History parse} {store store' : Cell → Option Object} {position : FileState}

/-- Every store that covers a position covers the beginning. -/
theorem CoversAt.base (covers : CoversAt h store position) : CoversTo h store 0 := by
  obtain ⟨n, _, covers⟩ := covers
  exact covers.mono (Nat.zero_le n)

/-- The beginning is where a slave without a position stands. -/
theorem CoversTo.start (covers : CoversTo h store 0) : CoversAt h store ⟨none, 0⟩ :=
  ⟨0, at_start h.files h.opened, covers⟩

/-- It is also where a first sync begins. -/
theorem CoversTo.first (covers : CoversTo h store 0) : CoversAt h store ⟨some 0, 0⟩ :=
  ⟨0, at_first h.files h.opened, covers⟩

/-- The position covers what it is for: the commands behind it lead to the store of the master. -/
theorem CoversAt.resume (covers : CoversAt h store position) :
    performPacks parse store (loadAof h.files position) = performPacks parse (fun _ => none) h.files.flatten := by
  obtain ⟨n, located, covers⟩ := covers
  obtain ⟨whole, replayed⟩ := h.replayable
  rw [located.loadAof, performPacks, covers.resume replayed, ← replayed]

/-- A packet without a zero byte is carried whole. -/
theorem reframe_uncut {packs : List Pack} (uncut : ∀ p ∈ packs, 0 ∉ p.body) :
    packs.map reframe = packs.map FirstSync.carried := by
  apply List.map_congr_left
  intro p member
  have whole : cString p.body = p.body := (cString_eq_self p.body).mpr (uncut p member)
  simp only [reframe, FirstSync.carried, whole]

/-- The next commands, carried whole, move the place that is covered behind them. Without a zero
byte a command arrives as it is but for its flag, which the store does not look at. -/
theorem CoversTo.advance {packs : List Pack} {n n' : Nat} (covers : CoversTo h store n)
    (inside : n ≤ h.files.flatten.length) (inside' : n' ≤ h.files.flatten.length)
    (next : h.files.flatten.drop n = packs ++ h.files.flatten.drop n') (uncut : ∀ p ∈ packs, 0 ∉ p.body)
    (performed : performPacks parse store (packs.map reframe) = some store') : CoversTo h store' n' ∧ n ≤ n' := by
  obtain ⟨whole, replayed⟩ := h.replayable
  have behind : n' = n + packs.length := by
    have length := congrArg List.length next
    rw [List.length_append, List.length_drop, List.length_drop] at length
    omega
  rw [reframe_uncut uncut, FirstSync.performPacks_carried] at performed
  have segment : (h.files.flatten.drop n).take packs.length = packs := by
    rw [next, List.take_left]
  rw [behind]
  constructor
  · apply Covers.advance covers replayed
    rw [segment]
    exact performed
  · exact Nat.le_add_right n packs.length

end Coverage

/-- The waiting commands, the store that a start would recover, and what both lead to. No
position is recorded, so a start executes the whole AOF on what the file holds. -/
structure Held (parse : ParseHset) (s : Server m) (pending : List Pack) (recovered : Cell → Option Object) : Prop where
  waiting : s.backlog.Waiting pending
  opened : s.aofFiles ≠ []
  memory : s.replConf.dbDumpAof = ⟨none, 0⟩
  disk : s.diskConf.dbDumpAof = ⟨none, 0⟩
  durable : performPacks parse s.loadDb.cells s.aofFiles.flatten = some recovered
  live : performPacks parse recovered pending = some s.buckets.cells

section Held

variable {s s' : Server m} {pending packs : List Pack} {recovered : Cell → Option Object}

/-- A server in an empty directory holds nothing. -/
theorem Held.fresh (rotateAofFileSize : Nat) (runId : String) :
    Held parse (Server.fresh rotateAofFileSize runId : Server m) [] (fun _ => none) where
  waiting := Backlog.Waiting.initializer _ _
  opened := List.cons_ne_nil _ _
  memory := rfl
  disk := rfl
  durable := congrArg some Buckets.load_nil
  live := rfl

/-- When nothing waits, the recovered store is the live one. -/
theorem Held.settled (held : Held parse s [] recovered) : recovered = s.buckets.cells :=
  Option.some.inj held.live

/-- What concerns only the link and the position of the master. Store, log, database file and
the position recorded for it stay as they are. -/
theorem Held.frame (held : Held parse s pending recovered) (buckets : s'.buckets = s.buckets)
    (backlog : s'.backlog = s.backlog) (dbFile : s'.dbFile = s.dbFile)
    (memory : s'.replConf.dbDumpAof = s.replConf.dbDumpAof) (confFile : s'.confFile = s.confFile) :
    Held parse s' pending recovered := by
  have files : s'.aofFiles = s.aofFiles := congrArg (fun b => b.aofFile.files) backlog
  constructor
  · rw [backlog]
    exact held.waiting
  · rw [files]
    exact held.opened
  · exact memory.trans held.memory
  · rw [Server.diskConf, confFile]
    exact held.disk
  · rw [files, Server.loadDb, dbFile]
    exact held.durable
  · rw [buckets]
    exact held.live

/-- Commands that are performed and fed wait. The AOF stays, and what waits leads to the store
they have been performed on. -/
theorem Held.feed (held : Held parse s pending recovered) (fed : s.Fed parse packs s') :
    Held parse s' (pending ++ packs) recovered := by
  have files : s'.aofFiles = s.aofFiles := fed.files
  have same := fed.same
  constructor
  · exact fed.waiting pending held.waiting
  · rw [files]
    exact held.opened
  · rw [same]
    exact held.memory
  · rw [same]
    exact held.disk
  · rw [files, same]
    exact held.durable
  · exact performAll_join held.live fed.performed

/-- A flush of the configuration changes nothing of it. The position recorded for the database
file is none in memory and on disk. -/
theorem Held.confFlush (held : Held parse s pending recovered) : Held parse s.replConfFlush pending recovered := by
  obtain ⟨buckets, backlog, _, _, dbFile, position, disk⟩ := s.replConfFlush_frame
  have files := s.replConfFlush_files
  constructor
  · rw [backlog]
    exact held.waiting
  · rw [files]
    exact held.opened
  · exact position.trans held.memory
  · rw [disk]
    exact position.trans held.memory
  · rw [files, Server.loadDb, dbFile]
    exact held.durable
  · rw [buckets]
    exact held.live

/-- What a merge of the backlog leaves: nothing waits, and a start would recover the live store. -/
theorem Held.merged (held : Held parse s pending recovered) {b : Backlog m} (waits : b.Waiting [])
    (extended : Extends s.aofFiles pending b.aofFile.files) :
    Held parse { s with backlog := b } [] s.buckets.cells := by
  have files : ({ s with backlog := b } : Server m).aofFiles.flatten = s.aofFiles.flatten ++ pending := extended.log
  constructor
  · exact waits
  · exact List.concat_ne_nil _ _
  · exact held.memory
  · exact held.disk
  · rw [files]
    exact performAll_join held.durable held.live
  · rfl

/-- A start recovers the store. It executes the whole AOF on the database file, since no
position was recorded, and opens a new file. -/
theorem Held.restart (held : Held parse s pending recovered) {clock : Clock} {genRandomID : String}
    (started : s.init parse clock genRandomID = some s') :
    Held parse s' [] recovered ∧ s'.buckets.cells = recovered := by
  obtain ⟨replayed, _, conf, _⟩ := Server.init_spec started
  obtain ⟨waiting, opened, extended, disk, loadDb⟩ := Server.init_files started
  have cells : s'.buckets.cells = recovered := by
    have replayed' := s.recover_spec parse clock (at_start s.aofFiles held.opened)
    rw [held.disk] at replayed
    rw [replayed, Option.map_some, List.drop_zero, held.durable] at replayed'
    exact Option.some.inj replayed'
  refine ⟨?_, cells⟩
  constructor
  · exact waiting
  · exact opened
  · rw [conf]
    exact held.disk
  · rw [disk]
    exact held.disk
  · rw [extended.log, List.append_nil, loadDb]
    exact held.durable
  · exact congrArg some cells.symm

/-- A received file replaces the store. With an empty AOF a start would recover it. -/
theorem Held.loadReceived (held : Held parse s [] recovered) (file : List Features) (clean : s.aofFiles.flatten = []) :
    Held parse (s.loadReceived file) [] (Buckets.load file).cells := by
  have files : (s.loadReceived file).aofFiles.flatten = [] := clean
  constructor
  · exact held.waiting
  · exact held.opened
  · exact held.memory
  · exact held.disk
  · rw [files]
    rfl
  · rfl

end Held

end Naruto.Replication
