import Naruto.Sink.RotateFileStream
import Naruto.Theory.KWayMerge

/-!
# Feeding the AOF

Every worker thread appends the packets of its commands, each behind a running
number, to its own slot of one of two buffer sets. The cron of the main thread
clears the other set, makes it the current one, and merges the set that was
current by these numbers into the backlog, which it then writes to the AOF.

The bytes of a slot are records of a number and a packet, and the merge cursor of
a slot always stands on a record, so a slot is kept as its list of records. The
counter is not bounded here; the code's has 64 bits.
-/

namespace Naruto.Replication

open Naruto.Theory Naruto.Utils Naruto.Sink

/-- What `backlogFeed` appends to a slot: the command number and the packet. -/
structure Record where
  id : Nat
  pack : Pack
deriving DecidableEq

/-- The part of `Replication` that commands pass through on their way to the AOF.
There is a slot for each worker and one for the main thread. -/
structure Backlog (m : Nat) where
  replPos : Bool
  repl : Bool → Fin m → List Record
  replCommandIncr : Nat
  backLog : List Pack
  aofFile : RotateFileStream

namespace Backlog

variable {m : Nat}

/-- `initializer()` on the files that are there. -/
def initializer (rotateAofFileSize : Nat) (files : List (List Pack)) : Backlog m where
  replPos := false
  repl := fun _ _ => []
  replCommandIncr := 0
  backLog := []
  aofFile := RotateFileStream.rotateInit rotateAofFileSize files

/-- `local_repl.putLong(command_id)` and the packet behind it, in a slot of a set. -/
def put (b : Backlog m) (set : Bool) (tid : Fin m) (record : Record) : Backlog m :=
  { b with repl := Function.update b.repl set (Function.update (b.repl set) tid (b.repl set tid ++ [record])) }

/-- `backlogFeed`, behind the choice of the buffer set. -/
def feedTo (b : Backlog m) (set : Bool) (tid : Fin m) (pack : Pack) : Backlog m :=
  let commandId := b.replCommandIncr
  { b with replCommandIncr := b.replCommandIncr + 1 }.put set tid ⟨commandId, pack⟩

/-- `backlogFeed`. -/
def backlogFeed (b : Backlog m) (tid : Fin m) (pack : Pack) : Backlog m := b.feedTo b.replPos tid pack

/-- `_backlog_flush`, and whether it goes on to `replConfFlush`. -/
def backlogFlush (b : Backlog m) : Backlog m × Bool :=
  if b.backLog = [] then (b, false)
  else ({ b with aofFile := b.aofFile.write b.backLog, backLog := [] }, true)

/-- The first part of `_merge_backlog_feed_slaves`: the other set is cleared and
becomes the current one. -/
def swap (b : Backlog m) : Backlog m :=
  { b with repl := Function.update b.repl (!b.replPos) fun _ => [], replPos := !b.replPos }

/-- `_merge_backlog_feed_slaves`. -/
def mergeBacklogFeedSlaves (sorting : Sorting m) (b : Backlog m) : Backlog m × Bool :=
  let curPos := b.replPos
  let b := b.swap
  let merged := kWayMerge sorting Record.id (b.repl curPos)
  { b with backLog := b.backLog ++ merged.map Record.pack }.backlogFlush

/-- What `stop()` does to the backlog. -/
def stop (b : Backlog m) : Backlog m := b.backlogFlush.1

/-- The AOF as one list of packets. -/
def aof (b : Backlog m) : List Pack := b.aofFile.files.flatten

/-- The records of the current set. -/
def current (b : Backlog m) : List Record := entriesOf (b.repl b.replPos)

/-- The merged packets reach the AOF at once: nothing stays in `back_log_`. The buffers are
swapped first, and what was fed into the old ones is merged and written. -/
theorem merge_spec (sorting : Sorting m) (b : Backlog m) (flushed : b.backLog = []) :
    ∃ merged, merged = (kWayMerge sorting Record.id (b.repl b.replPos)).map Record.pack ∧
      (b.mergeBacklogFeedSlaves sorting).1 =
        { b.swap with aofFile := if merged = [] then b.aofFile else b.aofFile.write merged } ∧
      ((b.mergeBacklogFeedSlaves sorting).2 = true ↔ merged ≠ []) := by
  have kept : b.swap.repl b.replPos = b.repl b.replPos :=
    Function.update_of_ne (Bool.not_ne_self b.replPos).symm _ _
  have empty : b.swap.backLog = [] := flushed
  refine ⟨_, rfl, ?_⟩
  simp only [mergeBacklogFeedSlaves, kept, empty, List.nil_append, backlogFlush]
  split
  · rename_i nothing
    refine ⟨?_, by simp [nothing]⟩
    rw [nothing, ← empty]
    rfl
  · rename_i something
    refine ⟨?_, by simp [something]⟩
    rw [← empty]
    rfl

/-- After a merge the current set is empty. -/
theorem swap_current (b : Backlog m) (slot : Fin m) : b.swap.repl b.swap.replPos slot = [] := by
  have cleared : b.swap.repl b.swap.replPos = fun _ => [] := Function.update_self _ _ _
  rw [cleared]

/-- A merge leaves nothing in `back_log_`, and the new current set empty. -/
theorem merge_empties (sorting : Sorting m) (b : Backlog m) (flushed : b.backLog = []) :
    (b.mergeBacklogFeedSlaves sorting).1.backLog = [] ∧
      ∀ slot, (b.mergeBacklogFeedSlaves sorting).1.repl (b.mergeBacklogFeedSlaves sorting).1.replPos slot = [] := by
  obtain ⟨merged, _, result, _⟩ := b.merge_spec sorting flushed
  rw [result]
  exact ⟨flushed, b.swap_current⟩

/-- A merge adds what it merges to the AOF. -/
theorem merge_aof (sorting : Sorting m) (b : Backlog m) (flushed : b.backLog = []) :
    (b.mergeBacklogFeedSlaves sorting).1.aof =
      b.aof ++ (kWayMerge sorting Record.id (b.repl b.replPos)).map Record.pack := by
  obtain ⟨merged, same, result, _⟩ := b.merge_spec sorting flushed
  rw [result, ← same, aof]
  by_cases nothing : merged = []
  · simp only [nothing, ↓reduceIte, List.append_nil]
    rfl
  · simp only [nothing, ↓reduceIte]
    exact (b.aofFile.write_grows merged).flatten

/-- `pending` are the commands fed since the last merge, in feed order: the slots of
the current set are dealt from them under increasing numbers. -/
structure Waiting (b : Backlog m) (pending : List Pack) : Prop where
  flushed : b.backLog = []
  dealt : ∃ sequence : List (Fin m × Record), b.repl b.replPos = deal sequence ∧
    (sequence.Pairwise fun l r => l.2.id < r.2.id) ∧ (∀ entry ∈ sequence, entry.2.id < b.replCommandIncr) ∧
    sequence.map (fun entry => entry.2.pack) = pending

namespace Waiting

variable {b : Backlog m} {pending : List Pack}

/-- Nothing waits at the start. -/
theorem initializer (rotateAofFileSize : Nat) (files : List (List Pack)) :
    Waiting (Backlog.initializer rotateAofFileSize files : Backlog m) [] :=
  ⟨rfl, [], rfl, List.Pairwise.nil, fun _ member => absurd member List.not_mem_nil, rfl⟩

/-- A fed command waits behind the others. It gets the next number, so the sequence stays
increasing, and goes to the slot of its worker. -/
theorem feed (waiting : Waiting b pending) (tid : Fin m) (pack : Pack) :
    Waiting (b.backlogFeed tid pack) (pending ++ [pack]) := by
  obtain ⟨sequence, slots, increasing, below, packs⟩ := waiting.dealt
  refine ⟨waiting.flushed, sequence ++ [(tid, ⟨b.replCommandIncr, pack⟩)], ?_, ?_, ?_, ?_⟩
  · have fed : (b.backlogFeed tid pack).repl (b.backlogFeed tid pack).replPos =
        Function.update (b.repl b.replPos) tid (b.repl b.replPos tid ++ [⟨b.replCommandIncr, pack⟩]) :=
      Function.update_self _ _ _
    rw [fed, slots, deal_snoc]
  · refine List.pairwise_append.mpr ⟨increasing, List.pairwise_singleton _ _, fun entry member last same => ?_⟩
    obtain rfl := List.mem_singleton.mp same
    exact below entry member
  · intro entry member
    rcases List.mem_append.mp member with before | last
    · exact Nat.lt_succ_of_lt (below entry before)
    · obtain rfl := List.mem_singleton.mp last
      exact Nat.lt_succ_self _
  · rw [List.map_append, packs]
    rfl

/-- What the next merge writes is what waits. -/
theorem unmerged (waiting : Waiting b pending) (sorting : Sorting m) :
    (kWayMerge sorting Record.id (b.repl b.replPos)).map Record.pack = pending := by
  obtain ⟨sequence, slots, increasing, _, packs⟩ := waiting.dealt
  rw [slots, kWayMerge_deal sorting Record.id sequence increasing, List.map_map]
  exact packs

/-- A merge writes what waits to the AOF, in feed order; then nothing waits. It
goes on to flush the configuration when there was something to write. -/
theorem merge (waiting : Waiting b pending) (sorting : Sorting m) :
    Waiting (b.mergeBacklogFeedSlaves sorting).1 [] ∧
      (b.mergeBacklogFeedSlaves sorting).1.aofFile =
        (if pending = [] then b.aofFile else b.aofFile.write pending) ∧
      ((b.mergeBacklogFeedSlaves sorting).2 = true ↔ pending ≠ []) := by
  obtain ⟨merged, same, result, goes⟩ := b.merge_spec sorting waiting.flushed
  obtain rfl : merged = pending := same.trans (waiting.unmerged sorting)
  refine ⟨?_, congrArg aofFile result, goes⟩
  rw [result]
  refine ⟨waiting.flushed, [], ?_, List.Pairwise.nil, fun _ member => absurd member List.not_mem_nil, rfl⟩
  funext slot
  exact b.swap_current slot

/-- The same for the files: the log is extended by what waits. -/
theorem grown (waiting : Waiting b pending) (sorting : Sorting m) :
    Extends b.aofFile.files pending (b.mergeBacklogFeedSlaves sorting).1.aofFile.files := by
  obtain ⟨_, file, _⟩ := waiting.merge sorting
  rw [file]
  by_cases nothing : pending = []
  · rw [if_pos nothing, nothing]
    exact Extends.refl _
  · rw [if_neg nothing]
    exact Extends.of_grows (b.aofFile.write_grows pending)

/-- What waits determines the current set: nothing waits exactly when its slots are empty. -/
theorem empty_iff (waiting : Waiting b pending) : pending = [] ↔ ∀ slot, b.repl b.replPos slot = [] := by
  obtain ⟨sequence, slots, _, _, packs⟩ := waiting.dealt
  rw [slots, ← packs, List.map_eq_nil_iff]
  constructor
  · rintro rfl slot
    rfl
  · intro none
    have all := entriesOf_deal sequence
    have nothing : entriesOf (deal sequence) = [] := List.flatMap_eq_nil_iff.mpr fun slot _ => none slot
    rw [nothing] at all
    exact List.map_eq_nil_iff.mp all.nil_eq.symm

end Waiting

end Backlog

end Naruto.Replication
