import Naruto.Replication.Backlog
import Naruto.Theory.Runs

/-!
# The double buffer without a handshake

`backlogFeed` loads `repl_pos_` and appends to the chosen set later; a merge of the
main thread may come in between. A packet appended to the set that is no longer
current is cleared by the next merge before any merge reads it. No packet is lost
or written twice exactly when every append goes to the set that is current then.
-/

namespace Naruto.Replication.DoubleBuffer

open Naruto.Theory Naruto.Utils Naruto.Sink

variable {m : Nat}

/-- The backlog, the set each worker has chosen for the packet it is about to
append, and the packets appended so far. -/
structure State (m : Nat) where
  backlog : Backlog m
  chosen : Fin m → Option Bool
  fed : List Pack

/-- A worker loads `repl_pos_`, a worker appends, or the main thread merges. -/
inductive Event (m : Nat)
  | pick (tid : Fin m)
  | append (tid : Fin m) (pack : Pack)
  | merge

/-- Before the first command, on the files that are there. -/
def start (rotateAofFileSize : Nat) (files : List (List Pack)) : State m where
  backlog := Backlog.initializer rotateAofFileSize files
  chosen := fun _ => none
  fed := []

/-- One event. A worker has one command at a time: it chooses, then appends. A merge may come
between the two. -/
def step (sorting : Sorting m) (s : State m) : Event m → Option (State m)
  | .pick tid =>
    match s.chosen tid with
    | none => some { s with chosen := Function.update s.chosen tid (some s.backlog.replPos) }
    | some _ => none
  | .append tid pack =>
    match s.chosen tid with
    | none => none
    | some set => some
      { backlog := s.backlog.feedTo set tid pack
        chosen := Function.update s.chosen tid none
        fed := s.fed ++ [pack] }
  | .merge => some { s with backlog := (s.backlog.mergeBacklogFeedSlaves sorting).1 }

/-- The next two merges leave every appended packet in the AOF once: it is there
already, or in a buffer that one of them merges before it is cleared. -/
def Kept (sorting : Sorting m) (files : List (List Pack)) (s : State m) : Prop :=
  let next := (s.backlog.mergeBacklogFeedSlaves sorting).1
  ((next.mergeBacklogFeedSlaves sorting).1.aof).Perm (files.flatten ++ s.fed)

/-- An append goes to the set that is current at that moment. -/
def AppendsToCurrent (s : State m) : Event m → Prop
  | .append tid _ => ∀ set, s.chosen tid = some set → set = s.backlog.replPos
  | _ => True

/-- A merge moves the records of the current set to the AOF and leaves the new
current set empty. -/
theorem merge_moves (sorting : Sorting m) (b : Backlog m) (flushed : b.backLog = []) :
    ((b.mergeBacklogFeedSlaves sorting).1.aof).Perm (b.aof ++ b.current.map Record.pack) ∧
      (b.mergeBacklogFeedSlaves sorting).1.current = [] ∧ (b.mergeBacklogFeedSlaves sorting).1.backLog = [] := by
  have perm := (kWayMerge_perm sorting Record.id (b.repl b.replPos)).map Record.pack
  obtain ⟨flushed', empty⟩ := b.merge_empties sorting flushed
  rw [b.merge_aof sorting flushed]
  exact ⟨perm.append_left b.aof, List.flatMap_eq_nil_iff.mpr fun slot _ => empty slot, flushed'⟩

/-- Where the appended packets are when none is lost: in the AOF or in the current set. -/
theorem kept_iff_held (sorting : Sorting m) (files : List (List Pack)) (s : State m) (flushed : s.backlog.backLog = []) :
    Kept sorting files s ↔
      (s.backlog.aof ++ s.backlog.current.map Record.pack).Perm (files.flatten ++ s.fed) := by
  obtain ⟨moved, empty, flushed'⟩ := merge_moves sorting s.backlog flushed
  obtain ⟨again, _, _⟩ := merge_moves sorting _ flushed'
  rw [empty, List.map_nil, List.append_nil] at again
  have both := again.trans moved
  exact ⟨fun kept => both.symm.trans kept, fun held => both.trans held⟩

/-- An append to the current set adds its packet there. -/
theorem append_current (b : Backlog m) (tid : Fin m) (pack : Pack) :
    ((b.feedTo b.replPos tid pack).current.map Record.pack).Perm (b.current.map Record.pack ++ [pack]) := by
  have fed : (b.feedTo b.replPos tid pack).repl (b.feedTo b.replPos tid pack).replPos =
      Function.update (b.repl b.replPos) tid (b.repl b.replPos tid ++ [⟨b.replCommandIncr, pack⟩]) :=
    Function.update_self _ _ _
  rw [Backlog.current, fed]
  have added := (entriesOf_snoc (b.repl b.replPos) tid ⟨b.replCommandIncr, pack⟩).map Record.pack
  rw [List.map_append] at added
  exact added

/-- An append to the other set leaves the current set and the AOF as they are. -/
theorem append_stale (b : Backlog m) (set : Bool) (tid : Fin m) (pack : Pack) (stale : set ≠ b.replPos) :
    (b.feedTo set tid pack).current = b.current := by
  have other : (b.feedTo set tid pack).repl b.replPos = b.repl b.replPos :=
    Function.update_of_ne (Ne.symm stale) _ _
  exact congrArg entriesOf other

/-- A step whose append goes to the current set keeps every packet. A merge moves packets from
the current set to the AOF, and a choice moves nothing. -/
theorem step_kept (sorting : Sorting m) (files : List (List Pack)) (s s' : State m) (event : Event m)
    (flushed : s.backlog.backLog = [])
    (held : (s.backlog.aof ++ s.backlog.current.map Record.pack).Perm (files.flatten ++ s.fed))
    (appends : AppendsToCurrent s event) (stepped : step sorting s event = some s') :
    s'.backlog.backLog = [] ∧
      (s'.backlog.aof ++ s'.backlog.current.map Record.pack).Perm (files.flatten ++ s'.fed) := by
  cases event with
  | pick tid =>
    rw [step] at stepped
    cases chosen : s.chosen tid with
    | some set => simp [chosen] at stepped
    | none =>
      simp only [chosen, Option.some.injEq] at stepped
      subst stepped
      exact ⟨flushed, held⟩
  | append tid pack =>
    rw [step] at stepped
    cases chosen : s.chosen tid with
    | none => simp [chosen] at stepped
    | some set =>
      obtain rfl := appends set chosen
      simp only [chosen, Option.some.injEq] at stepped
      subst stepped
      refine ⟨flushed, ?_⟩
      have added := (append_current s.backlog tid pack).append_left s.backlog.aof
      rw [← List.append_assoc] at added ⊢
      exact added.trans (held.append_right [pack])
  | merge =>
    obtain rfl := Option.some.inj stepped
    obtain ⟨moved, empty, flushed'⟩ := merge_moves sorting s.backlog flushed
    refine ⟨flushed', ?_⟩
    simp only [empty, List.map_nil, List.append_nil]
    exact moved.trans held

/-- A step that keeps every packet appends to the current set: otherwise a packet
has been fed and neither the AOF nor the current set has grown. -/
theorem kept_step (sorting : Sorting m) (files : List (List Pack)) (s : State m) (event : Event m)
    (flushed : s.backlog.backLog = []) (kept : Kept sorting files s)
    (after : ∀ s', step sorting s event = some s' → Kept sorting files s') : AppendsToCurrent s event := by
  cases event with
  | pick tid => exact trivial
  | merge => exact trivial
  | append tid pack =>
    intro set chosen
    by_contra stale
    have stepped : step sorting s (.append tid pack) = some
        { backlog := s.backlog.feedTo set tid pack
          chosen := Function.update s.chosen tid none
          fed := s.fed ++ [pack] } := by
      rw [step]
      simp only [chosen]
    have before := ((kept_iff_held sorting files s flushed).mp kept).length_eq
    have behind := ((kept_iff_held sorting files
      { backlog := s.backlog.feedTo set tid pack
        chosen := Function.update s.chosen tid none
        fed := s.fed ++ [pack] } flushed).mp (after _ stepped)).length_eq
    have same : (s.backlog.feedTo set tid pack).aof = s.backlog.aof := rfl
    simp only [append_stale s.backlog set tid pack stale, same] at behind
    rw [before, ← List.append_assoc, ← List.concat_eq_append, List.length_concat] at behind
    exact absurd behind (Nat.ne_of_lt (Nat.lt_succ_self _))

/-- From a state that keeps every packet: all states of a run keep every packet exactly when
all its appends go to the set that is then current. By induction on the events: a state that
has lost a packet ends the left side, and an append to the other set the right one. -/
theorem run_kept_iff (sorting : Sorting m) (files : List (List Pack)) (s : State m) (events : List (Event m))
    (flushed : s.backlog.backLog = [])
    (held : (s.backlog.aof ++ s.backlog.current.map Record.pack).Perm (files.flatten ++ s.fed)) :
    (∀ front back s', events = front ++ back → run (step sorting) s front = some s' → Kept sorting files s') ↔
      Along (step sorting) AppendsToCurrent s events := by
  have kept : Kept sorting files s := (kept_iff_held sorting files s flushed).mpr held
  induction events generalizing s with
  | nil =>
    refine ⟨fun _ => trivial, fun _ front back s' split ran => ?_⟩
    obtain ⟨rfl, _⟩ := List.append_eq_nil_iff.mp split.symm
    exact Option.some.inj ran ▸ kept
  | cons event events ih =>
    constructor
    · intro all
      have appends := kept_step sorting files s event flushed kept fun s' stepped =>
        all [event] events s' rfl (by rw [run_cons, stepped]; rfl)
      refine ⟨appends, fun s' stepped => ?_⟩
      obtain ⟨flushed', held'⟩ := step_kept sorting files s s' event flushed held appends stepped
      refine (ih s' flushed' held' ((kept_iff_held sorting files s' flushed').mpr held')).mp ?_
      intro front back last split ran
      exact all (event :: front) back last (by rw [split]; rfl) (by rw [run_cons, stepped]; exact ran)
    · rintro ⟨appends, later⟩ front back last split ran
      cases front with
      | nil => exact Option.some.inj ran ▸ kept
      | cons first front =>
        obtain ⟨rfl, rest⟩ := List.cons.inj split
        obtain ⟨s', stepped, ran'⟩ := Option.bind_eq_some_iff.mp ran
        obtain ⟨flushed', held'⟩ := step_kept sorting files s s' event flushed held appends stepped
        exact (ih s' flushed' held' ((kept_iff_held sorting files s' flushed').mpr held')).mpr
          (later s' stepped) front back last rest ran'

/-- In every run of choices, appends and merges, every state keeps every appended packet
exactly when each append goes to the set that is current at that moment.

Proof: a packet is kept when it is in the AOF or in the current set, since a merge moves the
current set to the AOF and leaves the new current set empty. An append to the current set
adds its packet there. One to the other set leaves both as they are, so the state right
behind it has lost the packet. -/
theorem kept_iff_current (sorting : Sorting m) (rotateAofFileSize : Nat) (files : List (List Pack))
    (events : List (Event m)) :
    (∀ front back s, events = front ++ back →
        run (step sorting) (start rotateAofFileSize files) front = some s → Kept sorting files s) ↔
      Along (step sorting) AppendsToCurrent (start rotateAofFileSize files) events := by
  refine run_kept_iff sorting files _ events rfl ?_
  have grown := (RotateFileStream.rotateInit_grows rotateAofFileSize files).flatten
  have empty : (Backlog.initializer rotateAofFileSize files : Backlog m).current = [] :=
    List.flatMap_eq_nil_iff.mpr fun _ _ => rfl
  have aof : (start rotateAofFileSize files : State m).backlog.aof = files.flatten ++ [] := grown
  have fed : (start rotateAofFileSize files : State m).fed = [] := rfl
  have current : (start rotateAofFileSize files : State m).backlog.current = [] := empty
  rw [aof, fed, current, List.map_nil, List.append_nil]

/-- A worker chooses a set, the main thread merges, and the worker appends: the
next merge clears the packet away. -/
theorem appended_packet_lost :
    ¬ ∀ (events : List (Event 1)) (s : State 1),
      run (step (Sorting.insertion 1)) (start 2 []) events = some s → Kept (Sorting.insertion 1) [] s := by
  intro all
  have kept := all [.pick 0, .merge, .append 0 ⟨0, 2000, [], by decide⟩] _ rfl
  have length := kept.length_eq
  exact absurd length (by decide)

end Naruto.Replication.DoubleBuffer
