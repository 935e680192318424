import Naruto.Replication.Relay
import Naruto.Replication.Replication
import Naruto.Theory.Runs

/-!
# The position of a slave

A slave records in its configuration file how far it has followed its master's
AOF, and resumes from there after a crash. The commands themselves become durable
with a merge. The flush behind a merge writes a position whose commands the merge
has just written; the flush by the timer writes the position of the last message,
also while its commands wait for a merge, and a crash then loses them. When the
timer finds nothing waiting, the own AOF holds every command before the position.
-/

namespace Naruto.Replication.SlavePosition

open Naruto.Theory Naruto.Utils Naruto.Sink Naruto.Database Naruto.Command

variable {m : Nat}

/-- What happens to a slave of a master with this AOF. A message brings packets of the
AOF and a boundary behind them; it carries the name of a file. -/
inductive Event (m : Nat) (master : List (List Pack))
  | multi (tid : Fin m) (clock : Clock) (packs : List Pack) (aof : FileState)
      (located : ∃ n, At master aof n) (named : aof.name ≠ none)
  | confFlush
  | merge
  | crash (clock : Clock) (genRandomID : String)

/-- `_slave_try_partial_resynchronization` asks to go on from this position. -/
def Cached (conf : ReplConf) : Prop := conf.masterRunId ≠ "" ∧ conf.masterAof.name ≠ none

/-- Whether a configuration caches a master can be decided. -/
instance (conf : ReplConf) : Decidable (Cached conf) := inferInstanceAs (Decidable (_ ∧ _))

/-- The `PARTSYNC` answer to the position in the configuration. -/
def resume (s : Server m) : Server m :=
  if Cached s.replConf then { s with master := some ⟨s.replConf.masterRunId, s.replConf.masterAof⟩ } else s

/-- One event. A message continues where the link stands. A crash loses what waits; the start
recovers the rest, and the slave asks with the position from the disk. -/
def step {master : List (List Pack)} (parse : ParseHset) (sorting : Sorting m) (s : Server m) :
    Event m master → Option (Server m)
  | .multi tid clock packs aof _ _ => do
    let link ← s.master
    if loadAof master link.replAof = packs ++ loadAof master aof then
      s.commandAof parse clock tid ⟨packs.map reframe, aof⟩
    else none
  | .confFlush => some s.replConfFlush
  | .merge => some (s.merge sorting)
  | .crash clock genRandomID => (s.init parse clock genRandomID).map resume

/-- The timer flushes the configuration only when nothing waits for a merge. -/
def FlushesMerged {master : List (List Pack)} (sorting : Sorting m) (s : Server m) : Event m master → Prop
  | .confFlush => s.unmerged sorting = []
  | _ => True

/-- Whether a flush comes behind a merge can be decided. -/
instance {master : List (List Pack)} (sorting : Sorting m) (s : Server m) :
    ∀ event : Event m master, Decidable (FlushesMerged sorting s event)
  | .confFlush => by unfold FlushesMerged; infer_instance
  | .multi _ _ _ _ _ _ | .merge | .crash _ _ => isTrue trivial

/-- A slave that has received a database file and stands at a position of its master. -/
def synced (rotateAofFileSize : Nat) (runId host : String) (file : List Features) (link : MasterLink) : Server m :=
  { Server.fresh rotateAofFileSize runId with
    buckets := Buckets.load file
    replConf := { ReplConf.empty with runId := runId, masterRunId := link.replRunId, masterAof := link.replAof }
    masterHost := host
    master := some link
    dbFile := some file }

/-- What a slave has received, from its first position on, and what it goes on to
receive from another one. -/
def Safe (parse : ParseHset) (master : List (List Pack)) (file : List Features) (origin : FileState)
    (log : List Pack) (position : FileState) : Prop :=
  ∃ received, loadAof master origin = received ++ loadAof master position ∧ (received.map reframe).Sublist log ∧
    performPacks parse (Buckets.load file).cells (log ++ (loadAof master position).map reframe) =
      performPacks parse (Buckets.load file).cells ((loadAof master origin).map reframe)

section Safe

variable {parse : ParseHset} {master : List (List Pack)} {file : List Features} {origin position position' : FileState}
  {log packs : List Pack}

/-- The first position is safe with an empty log. -/
theorem Safe.start : Safe parse master file origin [] origin :=
  ⟨[], rfl, List.Sublist.refl [], rfl⟩

/-- A message keeps the position safe: its packets are added to the log. -/
theorem Safe.multi (safe : Safe parse master file origin log position)
    (next : loadAof master position = packs ++ loadAof master position') :
    Safe parse master file origin (log ++ packs.map reframe) position' := by
  obtain ⟨received, split, kept, same⟩ := safe
  refine ⟨received ++ packs, ?_, ?_, ?_⟩
  · rw [split, next, List.append_assoc]
  · rw [List.map_append]
    exact kept.append (List.Sublist.refl _)
  · rw [← same, next, List.map_append, List.append_assoc]

end Safe

/-- A slave resumes safely after a crash: when the configuration file names a position,
the commands of the master before it are in the own AOF, behind the database file, and
what a start recovers from these leads, with the commands from the position on, to the
same store as all commands of the master. -/
def Resumes (parse : ParseHset) (clock : Clock) (master : List (List Pack)) (file : List Features)
    (origin : FileState) (s : Server m) : Prop :=
  Cached s.diskConf → ∃ received db, loadAof master origin = received ++ loadAof master s.diskConf.masterAof ∧
    (received.map reframe).Sublist s.aofFiles.flatten ∧ s.recover parse clock s.diskConf.dbDumpAof = some db ∧
    performPacks parse db.cells ((loadAof master s.diskConf.masterAof).map reframe) =
      performPacks parse (Buckets.load file).cells ((loadAof master origin).map reframe)

/-- What holds in memory. The file has led to the store through the AOF and what waits,
and the position of the link is safe with these. The configuration in memory names a
position only while there is a link that a flush records in its place. -/
structure Follows (parse : ParseHset) (master : List (List Pack)) (file : List Features) (origin : FileState)
    (s : Server m) (pending : List Pack) : Prop where
  waiting : s.backlog.Waiting pending
  loaded : s.dbFile = some file
  memory : s.replConf.dbDumpAof = ⟨none, 0⟩
  opened : s.aofFiles ≠ []
  live : performPacks parse (Buckets.load file).cells (s.aofFiles.flatten ++ pending) = some s.buckets.cells
  link : ∀ link, s.master = some link →
    Safe parse master file origin (s.aofFiles.flatten ++ pending) link.replAof
  cached : Cached s.replConf → ∃ link, s.master = some link ∧ link.replRunId ≠ "" ∧ link.replAof.name ≠ none

/-- The invariant: on disk, the position is safe with the AOF alone. -/
structure Inv (parse : ParseHset) (master : List (List Pack)) (file : List Features) (origin : FileState)
    (s : Server m) (pending : List Pack) : Prop where
  follows : Follows parse master file origin s pending
  dumped : s.diskConf.dbDumpAof = ⟨none, 0⟩
  disk : Cached s.diskConf → Safe parse master file origin s.aofFiles.flatten s.diskConf.masterAof

section Events

variable {parse : ParseHset} {sorting : Sorting m} {master : List (List Pack)} {file : List Features}
  {origin : FileState} {s s' : Server m} {pending : List Pack}

/-- A message of the master. The packets are the next ones of the master's log, so the position
behind them is safe with what then waits. -/
theorem Inv.multi (inv : Inv parse master file origin s pending) {tid : Fin m} {clock : Clock} {packs : List Pack}
    {aof : FileState} (named : aof.name ≠ none) {link : MasterLink} (linked : s.master = some link)
    (next : loadAof master link.replAof = packs ++ loadAof master aof)
    (ran : s.commandAof parse clock tid ⟨packs.map reframe, aof⟩ = some s') :
    Inv parse master file origin s' (pending ++ packs.map reframe) := by
  obtain ⟨⟨waiting, loaded, memory, opened, live, link', cached⟩, dumped, disk⟩ := inv
  obtain ⟨fed, master'⟩ := Server.commandAof_spec ran
  have files : s'.aofFiles = s.aofFiles := fed.files
  have same := fed.same
  have safe := link' link linked
  refine ⟨⟨fed.waiting pending waiting, ?_, ?_, files ▸ opened, ?_, ?_, ?_⟩, ?_, ?_⟩
  · rw [same]
    exact loaded
  · rw [same]
    exact memory
  · rw [files, ← List.append_assoc]
    exact performAll_join live fed.performed
  · intro link' linked'
    rw [master', linked, Option.map_some] at linked'
    obtain rfl := Option.some.inj linked'
    rw [files, ← List.append_assoc]
    exact safe.multi next
  · intro cached'
    rw [same] at cached'
    obtain ⟨link', linked', runId, _⟩ := cached cached'
    obtain rfl := Option.some.inj (linked.symm.trans linked')
    rw [master', linked]
    exact ⟨_, rfl, runId, named⟩
  · rw [same]
    exact dumped
  · rw [files, same]
    exact disk

/-- A flush of the configuration when nothing waits makes the disk follow the memory. Nothing
waits, so the AOF alone makes the position safe. -/
theorem Follows.confFlush (follows : Follows parse master file origin s []) :
    Inv parse master file origin s.replConfFlush [] := by
  obtain ⟨waiting, loaded, memory, opened, live, link', cached⟩ := follows
  obtain ⟨buckets, backlog, link, _, dbFile, position, disk⟩ := s.replConfFlush_frame
  have files := s.replConfFlush_files
  have flushed : Cached s.replConfFlush.replConf → ∃ link, s.master = some link ∧
      (link.replRunId ≠ "" ∧ link.replAof.name ≠ none) ∧ s.replConfFlush.replConf.masterAof = link.replAof := by
    intro cached'
    by_contra none
    have alone : s.replConfFlush.replConf = s.replConf := by
      apply Server.replConfFlush_alone
      intro link linked named
      exact none ⟨link, linked, named, (Server.replConfFlush_link linked named).2⟩
    rw [alone] at cached'
    obtain ⟨link, linked, named⟩ := cached cached'
    exact none ⟨link, linked, named, (Server.replConfFlush_link linked named).2⟩
  refine ⟨⟨backlog ▸ waiting, dbFile.trans loaded, position.trans memory, files ▸ opened, ?_, ?_, ?_⟩, ?_, ?_⟩
  · rw [files, buckets]
    exact live
  · rw [link, files]
    exact link'
  · intro cached'
    obtain ⟨link, linked, named, _⟩ := flushed cached'
    exact ⟨link, linked, named⟩
  · rw [disk, position]
    exact memory
  · intro cached'
    rw [disk] at cached'
    obtain ⟨link, linked, _, recorded⟩ := flushed cached'
    have safe := link' link linked
    rw [List.append_nil] at safe
    rw [disk, files, recorded]
    exact safe

/-- A merge moves what waits into the AOF and flushes the configuration behind it. When nothing
waits there is no flush, and the AOF is as it was. -/
theorem Inv.merge (inv : Inv parse master file origin s pending) (sorting : Sorting m) :
    Inv parse master file origin (s.merge sorting) [] := by
  obtain ⟨⟨waiting, loaded, memory, opened, live, link, cached⟩, dumped, disk⟩ := inv
  obtain ⟨b, waits, extended, result⟩ := s.merge_spec waiting sorting
  have files : ({ s with backlog := b } : Server m).aofFiles.flatten = s.aofFiles.flatten ++ pending := extended.log
  have opened' : ({ s with backlog := b } : Server m).aofFiles ≠ [] := List.concat_ne_nil _ _
  have follows : Follows parse master file origin { s with backlog := b } [] := by
    refine ⟨waits, loaded, memory, opened', ?_, ?_, cached⟩
    · rw [files, List.append_nil]
      exact live
    · rw [files, List.append_nil]
      exact link
  rw [result]
  by_cases nothing : pending = []
  · rw [if_pos nothing]
    refine ⟨follows, dumped, ?_⟩
    rw [files, nothing, List.append_nil]
    exact disk
  · rw [if_neg nothing]
    exact follows.confFlush

/-- A crash, a start and the answer `PARTSYNC`. The link begins at the position from the disk,
with the AOF that was there. -/
theorem Inv.crash (inv : Inv parse master file origin s pending) {clock : Clock} {genRandomID : String}
    (started : s.init parse clock genRandomID = some s') : Inv parse master file origin (resume s') [] := by
  obtain ⟨⟨waiting, loaded, memory, opened, live, link, _⟩, dumped, disk⟩ := inv
  obtain ⟨recovered, _, conf, master', _, dbFile, _⟩ := Server.init_spec started
  obtain ⟨waiting', opened', extended, disk', _⟩ := Server.init_files started
  have files : s'.aofFiles.flatten = s.aofFiles.flatten := extended.log.trans (List.append_nil _)
  have live' : performPacks parse (Buckets.load file).cells s'.aofFiles.flatten = some s'.buckets.cells := by
    have replayed := s.recover_spec parse clock (at_start s.aofFiles opened)
    have base : s.loadDb = Buckets.load file := by
      rw [Server.loadDb, loaded]
      rfl
    rw [dumped] at recovered
    rw [recovered, Option.map_some, base, List.drop_zero, ← files] at replayed
    exact replayed.symm
  have safe : Cached s'.replConf → Safe parse master file origin (s'.aofFiles.flatten ++ []) s'.replConf.masterAof := by
    rw [conf, files, List.append_nil]
    exact disk
  have follows : ∀ link : Option MasterLink, (∀ l, link = some l →
      Safe parse master file origin (s'.aofFiles.flatten ++ []) l.replAof) →
      (Cached s'.replConf → ∃ l, link = some l ∧ l.replRunId ≠ "" ∧ l.replAof.name ≠ none) →
      Inv parse master file origin { s' with master := link } [] := by
    intro link safe cached
    refine ⟨⟨?_, dbFile.trans loaded, ?_, ?_, ?_, safe, cached⟩, ?_, ?_⟩
    · exact waiting'
    · rw [conf]
      exact dumped
    · exact opened'
    · rw [List.append_nil]
      exact live'
    · exact disk' ▸ dumped
    · have same : ({ s' with master := link } : Server m).diskConf = s.diskConf := disk'
      have same' : ({ s' with master := link } : Server m).aofFiles.flatten = s.aofFiles.flatten := files
      rw [same, same']
      exact disk
  rw [resume]
  by_cases cached : Cached s'.replConf
  · rw [if_pos cached]
    refine follows _ (fun l same => ?_) (fun _ => ⟨_, rfl, cached.1, cached.2⟩)
    obtain rfl := Option.some.inj same
    exact safe cached
  · rw [if_neg cached]
    have idle := follows none (fun l none => by cases none) (fun cached' => absurd cached' cached)
    rw [← master'] at idle
    exact idle

/-- Every event that meets the condition keeps the invariant. A flush by timer is the one with a
condition: nothing may wait for a merge then. -/
theorem Inv.step (inv : Inv parse master file origin s pending) (event : Event m master)
    (merged : FlushesMerged sorting s event) (stepped : step parse sorting s event = some s') :
    ∃ pending', Inv parse master file origin s' pending' := by
  cases event with
  | multi tid clock packs aof located named =>
    obtain ⟨link, linked, rest⟩ := Option.bind_eq_some_iff.mp stepped
    by_cases next : loadAof master link.replAof = packs ++ loadAof master aof
    · rw [if_pos next] at rest
      exact ⟨_, inv.multi named linked next rest⟩
    · rw [if_neg next] at rest
      cases rest
  | confFlush =>
    obtain rfl := Option.some.inj stepped
    have nothing : s.unmerged sorting = [] := merged
    rw [s.unmerged_eq inv.follows.waiting] at nothing
    subst nothing
    exact ⟨[], inv.follows.confFlush⟩
  | merge =>
    obtain rfl := Option.some.inj stepped
    exact ⟨[], inv.merge sorting⟩
  | crash clock genRandomID =>
    obtain ⟨started, ran, rfl⟩ := Option.map_eq_some_iff.mp stepped
    exact ⟨[], inv.crash ran⟩

/-- The invariant holds where the slave begins. -/
theorem Inv.synced (parse : ParseHset) (master : List (List Pack)) (rotateAofFileSize : Nat) (runId host : String)
    (file : List Features) (link : MasterLink) :
    Inv parse master file link.replAof (synced rotateAofFileSize runId host file link : Server m) [] := by
  refine ⟨⟨Backlog.Waiting.initializer _ _, rfl, rfl, List.cons_ne_nil _ _, rfl, fun l same => ?_,
    fun cached => ⟨link, rfl, cached⟩⟩, rfl, fun cached => absurd rfl cached.1⟩
  obtain rfl := Option.some.inj same
  exact Safe.start

/-- The invariant gives a safe resumption. A start recovers what the AOF leads to from the
database file, and that is what the recorded position stands for. -/
theorem Inv.resumes (inv : Inv parse master file origin s pending) (clock : Clock) :
    Resumes parse clock master file origin s := by
  intro cached
  obtain ⟨received, split, kept, same⟩ := inv.disk cached
  obtain ⟨middle, performed, _⟩ := performAll_split inv.follows.live
  have replayed := s.recover_spec parse clock (at_start s.aofFiles inv.follows.opened)
  have base : s.loadDb = Buckets.load file := by
    rw [Server.loadDb, inv.follows.loaded]
    rfl
  rw [base, List.drop_zero] at replayed
  obtain ⟨db, recovered, rfl⟩ := Option.map_eq_some_iff.mp (replayed.trans performed)
  refine ⟨received, db, split, kept, inv.dumped ▸ recovered, ?_⟩
  rw [← same, performPacks, performPacks, performAll_append, performed]
  rfl

end Events

/-- A master's AOF with one packet, and the position behind it. -/
theorem behind_one : ∃ n, At [[keyedPack 1 1]] ⟨some 0, 10⟩ n :=
  ⟨1, (RotateFileStream.mk 2 [] [keyedPack 1 1]).curRollFile_at⟩

/-- A message, a merge, a flush by the timer and a crash. -/
def followed : List (Event 1 [[keyedPack 1 1]]) :=
  [.multi (Fin.last 0) ⟨0, 0⟩ [keyedPack 1 1] ⟨some 0, 10⟩ behind_one (Option.some_ne_none 0), .merge, .confFlush,
    .crash ⟨0, 0⟩ "b"]

end Naruto.Replication.SlavePosition
