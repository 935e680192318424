import Naruto.Database.DumpFile
import Naruto.Database.DumpStream
import Naruto.Database.StoreRuns
import Naruto.Replication.Replication
import Naruto.Theory.Runs

/-!
# The end of the bgsave child

The child writes the dump to a file of its own, and its exit status says what `dump` has
returned, which counts what is still in the buffer of the stream. The parent does not look
at the status: it renames whatever the child has left over the database file. So a dump
that was cut short replaces a whole one.
-/

namespace Naruto.Replication

open Naruto.Theory Naruto.Utils Naruto.Sink Naruto.Database

/-- A running child: the store at the fork, which has a key, and the position of the AOF
at that time. -/
structure Forked where
  buckets : Buckets
  something : buckets.size ≠ 0
  aofBeforeBgsave : FileState

/-- What `bgsave` and `onBgsaveFinish` read and write. Files are bytes. The position before the
fork is kept with the child and becomes the recorded one at its end. -/
structure Saving where
  buckets : Buckets
  curRollFile : FileState
  dbDumpAof : FileState
  bgsaveChild : Option Forked
  dbFile : Option (List UInt8)

/-- How it goes with a child. It comes to its end, with a device that does not open the
file or takes a number of bytes; or a signal ends it, before it has opened the file or
with a number of bytes in it. -/
inductive Fate
  | runs (device : Option Nat)
  | signalled (written : Option Nat)
deriving DecidableEq, Repr

/-- The status of an ended process. -/
inductive ExitStatus
  | exited (code : UInt8)
  | signalled
deriving DecidableEq, Repr

/-- An ended child: its status, and what is under the name of its temporary file. -/
structure Ended where
  rstatus : ExitStatus
  tmpFile : Option (List UInt8)
deriving DecidableEq, Repr

-- The bytes that protobuf writes for a message, and what streams keep in their buffers.
variable (serialized : Features → List UInt8) (keeping : Keeping)

/-- `_exit(ret >= 0 ? 0 : ret)` behind the dump. -/
def Ended.ofDump (dumped : Int × Option (List UInt8)) : Ended :=
  ⟨.exited (if 0 ≤ dumped.1 then 0 else UInt8.ofInt dumped.1), dumped.2⟩

/-- What a child leaves is what its dump left. -/
@[simp] theorem Ended.ofDump_tmpFile (dumped : Int × Option (List UInt8)) : (ofDump dumped).tmpFile = dumped.2 := rfl

/-- The child's side of `bgsave`. A file may be there under the name already, from a
child of another process that had its number. -/
def Forked.child (forked : Forked) (tmpFile : Option (List UInt8)) : Fate → Ended
  | .runs device => Ended.ofDump (forked.buckets.dumpFile serialized keeping device tmpFile)
  | .signalled none => ⟨.signalled, tmpFile⟩
  | .signalled (some written) => ⟨.signalled, some ((forked.buckets.dumpBytes serialized).take written)⟩

namespace Saving

/-- The parent's side of `bgsave`. -/
def bgsave (s : Saving) : Saving :=
  if something : s.buckets.size = 0 then s
  else match s.bgsaveChild with
    | some _ => s
    | none => { s with bgsaveChild := some ⟨s.buckets, something, s.curRollFile⟩ }

/-- `onBgsaveFinish`. `rename` fails without a file, or when the file system refuses. -/
def onBgsaveFinish (s : Saving) (refused : Bool) (child : Ended) : Saving :=
  match s.bgsaveChild with
  | none => s
  | some forked =>
    match child.tmpFile, refused with
    | some file, false =>
      { s with dbFile := some file, dbDumpAof := forked.aofBeforeBgsave, bgsaveChild := none }
    | _, _ => { s with bgsaveChild := none }

/-- The database file and the position are as before. -/
def Unchanged (s s' : Saving) : Prop := s'.dbFile = s.dbFile ∧ s'.dbDumpAof = s.dbDumpAof

/-- The complete dump at the fork and its position have replaced them. -/
def Replaced (forked : Forked) (s' : Saving) : Prop :=
  s'.dbFile = some (forked.buckets.dumpBytes serialized) ∧ s'.dbDumpAof = forked.aofBeforeBgsave

/-- A bgsave on a store with a key starts a child. -/
def CanSave (s : Saving) : Prop :=
  s.buckets.size ≠ 0 → ∃ forked, s.bgsave.bgsaveChild = some forked ∧ forked.buckets = s.buckets ∧
    forked.aofBeforeBgsave = s.curRollFile

end Saving

/-- What the end of a child should do, whatever the parent's state is then: a temporary
file that is the complete dump replaces the database file, or nothing changes. A later
bgsave can start. -/
def FinishesSafely (forked : Forked) (tmpFile : Option (List UInt8)) (fate : Fate) : Prop :=
  ∀ (s : Saving) (refused : Bool), s.bgsaveChild = some forked →
    let child := forked.child serialized keeping tmpFile fate
    let s' := s.onBgsaveFinish refused child
    (s.Unchanged s' ∨ child.tmpFile = some (forked.buckets.dumpBytes serialized) ∧ s'.Replaced serialized forked) ∧
      s'.CanSave

/-- The child leaves no file, or a complete dump: the device does not open the file or
takes all of it, and a signal comes before the file is opened or when all is in it. -/
def Fate.Harmless (complete : List UInt8) (tmpFile : Option (List UInt8)) : Fate → Prop
  | .runs none | .signalled none => ∀ file, tmpFile = some file → file = complete
  | .runs (some bytes) | .signalled (some bytes) => complete.length ≤ bytes

variable {serialized keeping}

/-- What is under the child's file name at the end: what was there, when the child has not
opened the file, and else a prefix of its dump. -/
theorem Forked.child_tmpFile (forked : Forked) (tmpFile : Option (List UInt8)) (fate : Fate) :
    (forked.child serialized keeping tmpFile fate).tmpFile =
      match fate with
      | .runs none | .signalled none => tmpFile
      | .runs (some bytes) | .signalled (some bytes) => some ((forked.buckets.dumpBytes serialized).take bytes) := by
  cases fate with
  | runs device =>
    cases device with
    | none => rw [child, Ended.ofDump_tmpFile, Buckets.dumpFile_unopened]
    | some room => rw [child, Ended.ofDump_tmpFile, forked.buckets.dumpFile_opened serialized keeping forked.something]
  | signalled written =>
    cases written with
    | none => rw [child]
    | some written => rw [child]

/-- A child's fate is harmless exactly when the file it leaves, if any, is complete. By cases
on the fate: the file is opened or not, and the device takes all or a part. -/
theorem Fate.harmless_iff (forked : Forked) (tmpFile : Option (List UInt8)) (fate : Fate) :
    fate.Harmless (forked.buckets.dumpBytes serialized) tmpFile ↔
      ∀ file, (forked.child serialized keeping tmpFile fate).tmpFile = some file →
        file = forked.buckets.dumpBytes serialized := by
  have part : ∀ bytes, (forked.buckets.dumpBytes serialized).length ≤ bytes ↔
      ∀ file, some ((forked.buckets.dumpBytes serialized).take bytes) = some file →
        file = forked.buckets.dumpBytes serialized := by
    intro bytes
    constructor
    · intro whole file left
      rw [← Option.some.inj left]
      exact List.take_of_length_le whole
    · intro complete
      have length := congrArg List.length (complete _ rfl)
      rw [List.length_take] at length
      omega
  rw [forked.child_tmpFile]
  cases fate with
  | runs device =>
    cases device with
    | none => rw [Harmless]
    | some bytes => exact part bytes
  | signalled written =>
    cases written with
    | none => rw [Harmless]
    | some bytes => exact part bytes

namespace Saving

/-- Without a child that runs a bgsave can start. -/
theorem canSave_of_none {s : Saving} (idle : s.bgsaveChild = none) : s.CanSave := by
  intro something
  rw [bgsave, dif_neg something, idle]
  exact ⟨_, rfl, rfl, rfl⟩

/-- After `onBgsaveFinish` no child runs. -/
theorem onBgsaveFinish_idle (s : Saving) (refused : Bool) (child : Ended) :
    (s.onBgsaveFinish refused child).bgsaveChild = none := by
  rw [onBgsaveFinish]
  split
  · assumption
  · split <;> rfl

/-- It changes nothing when there is no file or the file system refuses. -/
theorem onBgsaveFinish_unchanged (s : Saving) {refused : Bool} {child : Ended}
    (fails : child.tmpFile = none ∨ refused = true) : s.Unchanged (s.onBgsaveFinish refused child) := by
  rw [onBgsaveFinish]
  split
  · exact ⟨rfl, rfl⟩
  · split
    · rename_i there
      rcases fails with absent | refuses
      · cases there.symm.trans absent
      · cases refuses
    · exact ⟨rfl, rfl⟩

/-- Otherwise the file replaces the database file, whatever its status says. -/
theorem onBgsaveFinish_replaced {s : Saving} {forked : Forked} (running : s.bgsaveChild = some forked)
    {child : Ended} {file : List UInt8} (there : child.tmpFile = some file) :
    (s.onBgsaveFinish false child).dbFile = some file ∧
      (s.onBgsaveFinish false child).dbDumpAof = forked.aofBeforeBgsave := by
  rw [onBgsaveFinish, running, there]
  exact ⟨rfl, rfl⟩

/-- The parent while a child runs, before it has ever saved. -/
def first (forked : Forked) : Saving := ⟨forked.buckets, ⟨none, 0⟩, ⟨none, 0⟩, some forked, none⟩

end Saving

/-- The end of a child is safe exactly when the child leaves no file or a complete dump,
whatever its stream has kept in its buffer and whatever its exit status says.

Proof: `onBgsaveFinish` looks at the rename alone, which goes well when there is any file. So
a child that leaves none changes nothing, and one that leaves a complete dump installs it with
the position of its fork. A parent without a database file shows that any other file does
harm. -/
theorem finishesSafely_iff (forked : Forked) (tmpFile : Option (List UInt8)) (fate : Fate) :
    FinishesSafely serialized keeping forked tmpFile fate ↔
      fate.Harmless (forked.buckets.dumpBytes serialized) tmpFile := by
  rw [Fate.harmless_iff]
  constructor
  · intro safe file there
    -- A parent without a database file gets one.
    obtain ⟨same | ⟨complete, _⟩, _⟩ := safe (Saving.first forked) false rfl
    · have replaced := (Saving.onBgsaveFinish_replaced (s := Saving.first forked) rfl there).1
      cases replaced.symm.trans same.1
    · exact Option.some.inj (there.symm.trans complete)
  · intro whole s refused running
    refine ⟨?_, Saving.canSave_of_none (s.onBgsaveFinish_idle refused _)⟩
    cases left : (forked.child serialized keeping tmpFile fate).tmpFile with
    | none => exact Or.inl (s.onBgsaveFinish_unchanged (Or.inl left))
    | some file =>
      obtain rfl := whole file left
      cases refused with
      | true => exact Or.inl (s.onBgsaveFinish_unchanged (Or.inr rfl))
      | false => exact Or.inr ⟨rfl, Saving.onBgsaveFinish_replaced running left⟩

/-- What happens to the parent: commands change the store and the AOF, a bgsave, and the
end of a child. -/
inductive SaveEvent
  | serves (buckets : Buckets) (curRollFile : FileState)
  | bgsave
  | finishes (tmpFile : Option (List UInt8)) (fate : Fate) (refused : Bool)

namespace Saving

variable (serialized keeping) in
/-- One event. The end of a child that does not run is none. -/
def step (s : Saving) : SaveEvent → Option Saving
  | .serves buckets curRollFile => some { s with buckets := buckets, curRollFile := curRollFile }
  | .bgsave => some s.bgsave
  | .finishes tmpFile fate refused =>
    s.bgsaveChild.map fun forked => s.onBgsaveFinish refused (forked.child serialized keeping tmpFile fate)

/-- An event is harmless unless it is the end of a child that leaves a part of a dump. -/
def Harmless (serialized : Features → List UInt8) (s : Saving) : SaveEvent → Prop
  | .finishes tmpFile fate _ =>
    ∀ forked, s.bgsaveChild = some forked → fate.Harmless (forked.buckets.dumpBytes serialized) tmpFile
  | _ => True

/-- The store and the position of the AOF at a moment. -/
def moment (s : Saving) : Buckets × FileState := (s.buckets, s.curRollFile)

/-- The database file is the complete dump of a store that was there with the recorded
position, and so will be what a running child writes. -/
structure Whole (serialized : Features → List UInt8) (moments : List (Buckets × FileState)) (s : Saving) : Prop where
  dbFile : ∀ file, s.dbFile = some file → ∃ b, (b, s.dbDumpAof) ∈ moments ∧ file = b.dumpBytes serialized
  child : ∀ forked, s.bgsaveChild = some forked → (forked.buckets, forked.aofBeforeBgsave) ∈ moments
  now : s.moment ∈ moments

/-- A bgsave starts a child at the moment, or none. -/
theorem bgsave_cases (s : Saving) :
    s.bgsave = s ∨ ∃ something, s.bgsave = { s with bgsaveChild := some ⟨s.buckets, something, s.curRollFile⟩ } := by
  rw [bgsave]
  split
  · exact Or.inl rfl
  · rename_i something
    split
    · exact Or.inl rfl
    · exact Or.inr ⟨something, rfl⟩

/-- A harmless event keeps the database file whole. A fork remembers the store at its position,
and only the end of the child touches the file. -/
theorem Whole.step {moments : List (Buckets × FileState)} {s s' : Saving} {event : SaveEvent}
    (whole : s.Whole serialized moments) (harmless : s.Harmless serialized event)
    (stepped : s.step serialized keeping event = some s') : s'.Whole serialized (s'.moment :: moments) := by
  have later : ∀ {pair}, pair ∈ moments → pair ∈ s'.moment :: moments := List.mem_cons_of_mem _
  have kept : s'.dbFile = s.dbFile → s'.dbDumpAof = s.dbDumpAof →
      ∀ file, s'.dbFile = some file →
        ∃ b, (b, s'.dbDumpAof) ∈ s'.moment :: moments ∧ file = b.dumpBytes serialized := by
    intro same position file there
    obtain ⟨b, past, complete⟩ := whole.dbFile file (same.symm.trans there)
    exact ⟨b, position ▸ later past, complete⟩
  cases event with
  | serves buckets curRollFile =>
    obtain rfl := Option.some.inj stepped
    exact ⟨kept rfl rfl, fun forked running => later (whole.child forked running), List.mem_cons_self⟩
  | bgsave =>
    obtain rfl := Option.some.inj stepped
    rcases s.bgsave_cases with same | ⟨something, started⟩
    · rw [same] at kept later ⊢
      exact ⟨kept rfl rfl, fun forked running => later (whole.child forked running), List.mem_cons_self⟩
    · rw [started] at kept later ⊢
      refine ⟨kept rfl rfl, ?_, List.mem_cons_self⟩
      rintro forked running
      obtain rfl := Option.some.inj running
      exact List.mem_cons_self
  | finishes tmpFile fate refused =>
    obtain ⟨forked, running, rfl⟩ := Option.map_eq_some_iff.mp stepped
    have safe : FinishesSafely serialized keeping forked tmpFile fate :=
      (finishesSafely_iff forked tmpFile fate).mpr (harmless forked running)
    replace safe := safe s refused running
    refine ⟨?_, ?_, List.mem_cons_self⟩
    · rcases safe.1 with same | ⟨_, file, position⟩
      · exact kept same.1 same.2
      · rintro bytes there
        refine ⟨forked.buckets, ?_, (Option.some.inj (file.symm.trans there)).symm⟩
        rw [position]
        exact later (whole.child forked running)
    · intro other running'
      rw [s.onBgsaveFinish_idle] at running'
      cases running'

variable (serialized keeping) in
/-- One event, with the moments so far. -/
def stepLogged (s : Saving × List (Buckets × FileState)) (event : SaveEvent) :
    Option (Saving × List (Buckets × FileState)) :=
  (s.1.step serialized keeping event).map fun s' => (s', s'.moment :: s.2)

/-- A process that starts without a database file: as long as every child that ends
leaves no file or a complete dump, the database file is the complete dump of a store that
the process had when the AOF was at the recorded position. -/
theorem run_whole (start last : Saving) (moments : List (Buckets × FileState)) (events : List SaveEvent)
    (absent : start.dbFile = none) (idle : start.bgsaveChild = none)
    (harmless : Along (stepLogged serialized keeping) (fun s event => s.1.Harmless serialized event)
      (start, [start.moment]) events)
    (ran : run (stepLogged serialized keeping) (start, [start.moment]) events = some (last, moments)) :
    last.Whole serialized moments := by
  refine run_invariant (fun s => s.1.Whole serialized s.2) ?_ _ _ events ?_ harmless ran
  · intro s event s' whole safe stepped
    obtain ⟨next, advanced, rfl⟩ := Option.map_eq_some_iff.mp stepped
    exact whole.step safe advanced
  · refine ⟨fun file there => ?_, fun forked running => ?_, List.mem_cons_self⟩
    · cases absent.symm.trans there
    · cases idle.symm.trans running

end Saving

/-- The process as part of the server, its files as bytes. What belongs to the rest of the
server is left out. -/
structure Saving.Of {m : Nat} (serialized : Features → List UInt8) (t : Saving) (s : Server m) : Prop where
  buckets : t.buckets = s.buckets
  curRollFile : t.curRollFile = s.backlog.aofFile.curRollFile
  dbDumpAof : t.dbDumpAof = s.replConf.dbDumpAof
  child : (t.bgsaveChild.map fun forked => (⟨forked.buckets.dump, forked.aofBeforeBgsave⟩ : Bgsave)) = s.bgsaveChild
  dbFile : t.dbFile = s.dbFile.map (fileBytes serialized)

namespace Saving.Of

variable {m : Nat} {t : Saving} {s : Server m}

/-- Both start the same child. They look at the number of keys and at the child that runs. -/
theorem bgsave (same : t.Of serialized s) : t.bgsave.Of serialized s.bgsave := by
  have child := same.child
  rw [Saving.bgsave, Server.bgsave, ← same.buckets]
  by_cases something : t.buckets.size = 0
  · rw [dif_pos something, if_pos something]
    exact same
  · rw [dif_neg something, if_neg something, ← child]
    cases running : t.bgsaveChild with
    | some forked => exact same
    | none =>
      dsimp only [Option.map_none]
      exact
        { buckets := rfl
          curRollFile := same.curRollFile
          dbDumpAof := same.dbDumpAof
          child := by rw [Option.map_some, same.curRollFile]
          dbFile := same.dbFile }

/-- A child that has written all of its dump ends as the server's child does. The file and the
position of the fork take the places of the old ones. -/
theorem onBgsaveFinish (same : t.Of serialized s) {child : Ended}
    (complete : ∀ forked, t.bgsaveChild = some forked → child.tmpFile = some (forked.buckets.dumpBytes serialized)) :
    (t.onBgsaveFinish false child).Of serialized s.onBgsaveFinish := by
  have there := same.child
  rw [Saving.onBgsaveFinish, Server.onBgsaveFinish, ← there]
  cases running : t.bgsaveChild with
  | none => exact same
  | some forked =>
    rw [complete forked running]
    exact
      { buckets := same.buckets
        curRollFile := same.curRollFile
        dbDumpAof := rfl
        child := rfl
        dbFile := rfl }

end Saving.Of

/-- The bytes of the message for a key `\x01` with the field `\x02` that holds the number 3. -/
def messageOfThree : List UInt8 := [0x0a, 1, 1, 0x12, 11, 0x0a, 1, 2, 0x12, 6, 8, 1, 0x62, 2, 8, 3]

/-- A child forked from the store with that message. -/
def Forked.three : Forked where
  buckets := Buckets.single ⟨0, 0, 0, 0, .int64 3⟩
  something := by
    have stored : (Buckets.single ⟨0, 0, 0, 0, .int64 3⟩).cells ([1], [2]) = some (.int64 3) := by
      rw [Buckets.cells, Buckets.single, Buckets.get_put]
      rfl
    exact Nat.ne_of_gt (Buckets.size_pos _ stored)
  aofBeforeBgsave := ⟨none, 0⟩

/-- Its store has one key. -/
theorem Forked.three_size : Forked.three.buckets.size = 1 := by
  have keys : Forked.three.buckets.keyList.toFinset = {[1]} := by
    ext key
    simp [three, Buckets.single, Buckets.mem_keyList_put]
  rw [Buckets.size_eq_card, keys, Finset.card_singleton]

/-- So its dump has 24 bytes. -/
theorem Forked.three_length : (Forked.three.buckets.dumpBytes fun _ => messageOfThree).length = 24 := by
  have messages : Forked.three.buckets.dump.length = 1 := by
    rw [← List.length_map Features.id, Buckets.dump_ids, ← Buckets.size_eq, three_size]
  obtain ⟨features, file⟩ := List.length_eq_one_iff.mp messages
  rw [Buckets.dumpBytes, file]
  rfl

/-- Its device is full. The buffer of a stream, with room for 8191 bytes say, holds its whole dump: `dump`
returns the length, the child exits with 0, and its empty file becomes the database file. -/
theorem finishes_unsafely :
    (Forked.three.child (fun _ => messageOfThree) (Keeping.ofSize 1024 8191) none (.runs (some 0))).rstatus = .exited 0 ∧
    ¬ ∀ (forked : Forked) (tmpFile : Option (List UInt8)) (fate : Fate),
      FinishesSafely (fun _ => messageOfThree) (Keeping.ofSize 1024 8191) forked tmpFile fate := by
  have left : (Forked.three.child (fun _ => messageOfThree) (Keeping.ofSize 1024 8191) none (.runs (some 0))).tmpFile =
      some [] := Forked.three.child_tmpFile none (.runs (some 0))
  refine ⟨?_, fun all => ?_⟩
  · have kept := Forked.three.buckets.dumpStream_kept (fun _ => messageOfThree) 0 1024 8191
      (by rw [Forked.three_length]; decide) (by rw [Forked.three_length]; decide)
    have returns := Forked.three.buckets.dumpFile_returns (fun _ => messageOfThree) (Keeping.ofSize 1024 8191)
      Forked.three.something 0 none
    rw [kept, Forked.three_length] at returns
    rw [Forked.child, Ended.ofDump, returns]
    decide
  · have replaced := Saving.onBgsaveFinish_replaced (s := Saving.first Forked.three) rfl left
    obtain ⟨same | ⟨complete, _⟩, _⟩ := all Forked.three none (.runs (some 0)) (Saving.first Forked.three) false rfl
    · cases replaced.1.symm.trans same.1
    · have nothing := Option.some.inj (left.symm.trans complete)
      exact Forked.three.buckets.dumpBytes_ne_nil _ Forked.three.something nothing.symm

end Naruto.Replication
