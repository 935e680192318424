import Naruto.Replication.FullSync
import Naruto.Replication.SlavePosition

/-!
# The `psync` exchange

A slave asks to go on from the position in its configuration, or for a first sync
when it has none. The master answers with its first AOF file when it has no
database file yet, with its database file and the position recorded for it, with
the position asked for, or with nothing to sync from until a bgsave has finished.
The identifier in the request is not looked at.
-/

namespace Naruto.Replication

open Naruto.Theory Naruto.Utils Naruto.Sink Naruto.Database Naruto.Command SlavePosition

/-- `replication::command_psync`. The offset of a request without a file is not read. -/
structure Psync where
  runId : String
  replAof : FileState
deriving DecidableEq, Repr

/-- `replication::psync_type`. -/
inductive PsyncType
  | fullsync
  | partsync
  | trysync
deriving DecidableEq, Repr

/-- `replication::command_psync_reply` with error code zero. -/
structure PsyncReply where
  runId : String
  psyncType : PsyncType
  replDatabaseSize : Int
  replAof : FileState
deriving DecidableEq, Repr

/-- The master's end of the link: its state, and the position it sends from. -/
structure SlaveLink where
  replState : ReplState
  replAof : FileState
deriving DecidableEq, Repr

/-- The three cases of `CommandPsync::exec`. -/
inductive SyncCase
  | first
  | full
  | part
deriving DecidableEq, Repr

variable {m : Nat}

namespace Server

/-- `File::size` of an AOF file; nothing for -1. -/
def aofSize (s : Server m) (name : Nat) : Option Nat := s.aofFiles[name]?.map fun file => (Pack.encodeAll file).length

/-- `File::size` of the database file, given the size of its messages. -/
def databaseSize (fileSize : List Features → Nat) (s : Server m) : Int :=
  match s.dbFile with
  | some file => fileSize file
  | none => -1

/-- The choice of the case. -/
def syncCase (s : Server m) (psync : Psync) : SyncCase :=
  if psync.runId = "?" ∨ psync.replAof.name = none then
    if s.dbFile = none then .first else .full
  else match psync.replAof.name.bind s.aofSize with
    | none => .full
    | some size => if size < psync.replAof.offset then .full else .part

/-- `CommandPsync::exec`: the reply, the link, and the master, which may start a bgsave. A
first request to a server without a database file goes on at the start of the AOF, and a
position that lies in the AOF goes on there. Everything else gets the file, and waits for a
bgsave where there is none yet. -/
def commandPsync (fileSize : List Features → Nat) (s : Server m) (psync : Psync) :
    PsyncReply × SlaveLink × Server m :=
  match s.syncCase psync with
  | .first => (⟨s.replConf.runId, .partsync, 0, ⟨some 0, 0⟩⟩, ⟨.connected, ⟨some 0, 0⟩⟩, s)
  | .full =>
    if s.replConf.dbDumpAof.name = none then
      (⟨s.replConf.runId, .trysync, 0, ⟨none, 0⟩⟩, ⟨.waitBgsave, ⟨none, 0⟩⟩, s.bgsave)
    else
      (⟨s.replConf.runId, .fullsync, s.databaseSize fileSize, s.replConf.dbDumpAof⟩,
        ⟨.transfor, s.replConf.dbDumpAof⟩, s)
  | .part => (⟨s.replConf.runId, .partsync, 0, psync.replAof⟩, ⟨.connected, psync.replAof⟩, s)

/-- What `_slave_try_partial_resynchronization` asks for. -/
def psync (s : Server m) : Psync :=
  if Cached s.replConf then ⟨s.replConf.masterRunId, s.replConf.masterAof⟩ else ⟨"?", ⟨none, 0⟩⟩

/-- What it does to the link and the configuration after `FULLSYNC` and `PARTSYNC`. -/
def follow (s : Server m) (reply : PsyncReply) : Server m :=
  { s with
    master := some ⟨reply.runId, reply.replAof⟩
    replConf := { s.replConf with masterRunId := reply.runId, masterAof := reply.replAof } }

/-- `FULLSYNC` announces the position recorded for the database file. It is answered only when
one is recorded. -/
theorem commandPsync_fullsync {fileSize : List Features → Nat} {s : Server m} {psync : Psync}
    (fullsync : (s.commandPsync fileSize psync).1.psyncType = .fullsync) :
    s.replConf.dbDumpAof.name ≠ none ∧ (s.commandPsync fileSize psync).1.replAof = s.replConf.dbDumpAof := by
  rw [commandPsync] at fullsync ⊢
  cases case : s.syncCase psync with
  | first =>
    rw [case] at fullsync
    cases fullsync
  | part =>
    rw [case] at fullsync
    cases fullsync
  | full =>
    rw [case] at fullsync
    dsimp only at fullsync ⊢
    split at fullsync
    · cases fullsync
    · rename_i named
      rw [if_neg named]
      exact ⟨named, rfl⟩

/-- `PARTSYNC` gives the first AOF file, or the position asked for. A request with the run id
`?` gets the first. -/
theorem commandPsync_position {fileSize : List Features → Nat} {s : Server m} {psync : Psync}
    (partsync : (s.commandPsync fileSize psync).1.psyncType = .partsync) :
    (s.commandPsync fileSize psync).1.replAof = ⟨some 0, 0⟩ ∨
      psync.runId ≠ "?" ∧ (s.commandPsync fileSize psync).1.replAof = psync.replAof := by
  rw [commandPsync] at partsync ⊢
  cases case : s.syncCase psync with
  | first => exact Or.inl rfl
  | full =>
    rw [case] at partsync
    dsimp only at partsync
    split at partsync <;> cases partsync
  | part =>
    have known : psync.runId ≠ "?" := by
      intro unknown
      rw [syncCase, if_pos (Or.inl unknown)] at case
      split at case <;> cases case
    exact Or.inr ⟨known, rfl⟩

/-- A slave without a position gets the first AOF file of a master without a database file. -/
theorem psync_first {k : Nat} {master : Server k} {slave : Server m} (fileSize : List Features → Nat)
    (undumped : master.dbFile = none)
    (uncached : ¬ Cached slave.replConf) :
    (master.commandPsync fileSize slave.psync).1 = ⟨master.replConf.runId, .partsync, 0, ⟨some 0, 0⟩⟩ := by
  have first : master.syncCase slave.psync = .first := by
    rw [psync, if_neg uncached, syncCase, if_pos (Or.inl rfl), if_pos undumped]
  rw [commandPsync, first]

end Server

end Naruto.Replication
