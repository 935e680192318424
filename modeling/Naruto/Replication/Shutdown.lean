import Naruto.Replication.Backlog
import Naruto.Theory.Runs

/-!
# Shutting down

`stop()` flushes the backlog but does not merge: what the workers fed after the
last merge stays in their slots. The AOF is complete after `stop()` exactly when
nothing was fed since then.
-/

namespace Naruto.Replication.Shutdown

open Naruto.Theory Naruto.Utils Naruto.Sink

variable {m : Nat}

/-- A worker feeds the packet of a command, or the cron merges. -/
inductive Event (m : Nat)
  | feed (tid : Fin m) (pack : Pack)
  | merge

/-- One event. -/
def step (sorting : Sorting m) (b : Backlog m) : Event m → Option (Backlog m)
  | .feed tid pack => some (b.backlogFeed tid pack)
  | .merge => some (b.mergeBacklogFeedSlaves sorting).1

/-- The packets fed in a run, in feed order. -/
def fed : List (Event m) → List Pack
  | [] => []
  | .feed _ pack :: events => pack :: fed events
  | .merge :: events => fed events

/-- The packets fed after the last merge of a run, behind `pending` fed before it. -/
def unmerged (pending : List Pack) : List (Event m) → List Pack
  | [] => pending
  | .feed _ pack :: events => unmerged (pending ++ [pack]) events
  | .merge :: events => unmerged [] events

/-- A run keeps every fed packet: in the AOF, in feed order, or still waiting. The
induction is on the events, with the packets that wait at the start. -/
theorem run_aof (sorting : Sorting m) (b : Backlog m) (pending : List Pack) (events : List (Event m))
    (waiting : b.Waiting pending) :
    ∃ last, run (step sorting) b events = some last ∧ last.Waiting (unmerged pending events) ∧
      last.aof ++ unmerged pending events = b.aof ++ pending ++ fed events := by
  induction events generalizing b pending with
  | nil =>
    refine ⟨b, rfl, waiting, ?_⟩
    rw [fed, List.append_nil]
    rfl
  | cons event events ih =>
    cases event with
    | feed tid pack =>
      obtain ⟨last, ran, waits, all⟩ := ih (b.backlogFeed tid pack) _ (waiting.feed tid pack)
      refine ⟨last, ran, waits, ?_⟩
      have same : (b.backlogFeed tid pack).aof = b.aof := rfl
      rw [unmerged, all, same, fed, List.append_assoc, List.append_assoc, List.append_assoc]
      rfl
    | merge =>
      obtain ⟨merged, _, _⟩ := waiting.merge sorting
      obtain ⟨last, ran, waits, all⟩ := ih _ _ merged
      refine ⟨last, ran, waits, ?_⟩
      rw [unmerged, all, Backlog.aof, (waiting.grown sorting).log, fed, List.append_nil]
      rfl

/-- `stop()` changes nothing when the backlog has been flushed. -/
theorem stop_waiting (b : Backlog m) (pending : List Pack) (waiting : b.Waiting pending) : b.stop = b := by
  rw [Backlog.stop, Backlog.backlogFlush, if_pos waiting.flushed]

/-- After any run of feeds and merges and then `stop()`, the AOF holds every fed packet in
feed order exactly when none was fed after the last merge.

Proof: what is fed behind the last merge waits in the current set, and `stop` writes only
what a merge has left unflushed, which is nothing. The AOF and what waits are together all
that was fed, so the AOF is all of it exactly when nothing waits. -/
theorem stop_complete_iff (sorting : Sorting m) (rotateAofFileSize : Nat) (files : List (List Pack))
    (events : List (Event m)) :
    ∃ last, run (step sorting) (Backlog.initializer rotateAofFileSize files) events = some last ∧
      (last.stop.aof = files.flatten ++ fed events ↔ unmerged [] events = []) := by
  obtain ⟨last, ran, waits, all⟩ := run_aof sorting _ [] events (Backlog.Waiting.initializer rotateAofFileSize files)
  have start : (Backlog.initializer rotateAofFileSize files : Backlog m).aof = files.flatten := by
    have grown := (RotateFileStream.rotateInit_grows rotateAofFileSize files).flatten
    rw [List.append_nil] at grown
    exact grown
  rw [List.append_nil, start] at all
  refine ⟨last, ran, ?_⟩
  rw [stop_waiting last _ waits, ← all]
  exact List.self_eq_append_right

/-- One command is fed and the server is stopped before the next merge: the AOF is empty. -/
theorem stop_loses :
    ¬ ∀ (events : List (Event 1)) (last : Backlog 1),
      run (step (Sorting.insertion 1)) (Backlog.initializer 2 []) events = some last →
        last.stop.aof = fed events := by
  intro complete
  have stopped := complete [.feed 0 ⟨0, 2000, [], by decide⟩] _ rfl
  exact absurd stopped (by decide)

end Naruto.Replication.Shutdown
