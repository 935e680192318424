import Naruto.Command.Replay
import Naruto.Replication.Backlog
import Naruto.Theory.Runs

/-!
# The order of commands in the AOF

A worker applies an `hset`, then takes a number for it in two steps, a load and an
increment, and then appends it to its slot. The merge orders by these numbers.
Nothing makes the numbers of two commands follow the order in which they were
applied; the AOF replays to the live store when they do for every cell.

Merges happen only while no worker is between its apply and its append. A worker is taken to
apply its packet's own arguments; `Link.liveArgs` has the ones that `CommandHset::exec` reads
where a packet does not begin its body with a copy of its header.
-/

namespace Naruto.Replication.CommandOrder

open Naruto.Theory Naruto.Utils Naruto.Sink Naruto.Database Naruto.Command

variable {m : Nat}

/-- Where a worker is with its command. -/
inductive Stage
  | idle
  | applied (pack : Pack)
  | loaded (pack : Pack) (id : Nat)
  | incremented (pack : Pack) (id : Nat)
deriving DecidableEq

/-- An accepted command since the last merge: its worker and, once loaded, its number. -/
structure Applied (m : Nat) where
  tid : Fin m
  id : Option Nat
  pack : Pack
deriving DecidableEq

/-- The store, the backlog, the workers, and the commands accepted since the last
merge in the order in which they were applied. -/
structure State (m : Nat) where
  db : Buckets
  backlog : Backlog m
  stage : Fin m → Stage
  window : List (Applied m)

/-- The steps of a worker, and the merge. -/
inductive Event (m : Nat)
  | apply (tid : Fin m) (clock : Clock) (pack : Pack)
  | load (tid : Fin m)
  | increment (tid : Fin m)
  | append (tid : Fin m)
  | merge

/-- The number a worker has loaded is noted at its open command. -/
def note (tid : Fin m) (id : Nat) (window : List (Applied m)) : List (Applied m) :=
  window.map fun a => if a.tid = tid ∧ a.id = none then { a with id := some id } else a

/-- Before the first command. -/
def start (db : Buckets) (rotateAofFileSize : Nat) (files : List (List Pack)) : State m where
  db := db
  backlog := Backlog.initializer rotateAofFileSize files
  stage := fun _ => .idle
  window := []

/-- One event. A refused command is not fed, so its worker is idle again. A worker applies,
loads, increments and appends in this order; a merge needs all workers idle. -/
def step (parse : ParseHset) (sorting : Sorting m) (s : State m) : Event m → Option (State m)
  | .apply tid clock pack =>
    if s.stage tid = .idle ∧ pack.type = clientHset then
      (execPack parse clock s.db pack).map fun result =>
        if result.2.errcode = 0 then
          { s with
            db := result.1
            stage := Function.update s.stage tid (.applied pack)
            window := s.window ++ [⟨tid, none, pack⟩] }
        else { s with db := result.1 }
    else none
  | .load tid =>
    match s.stage tid with
    | .applied pack => some
      { s with
        stage := Function.update s.stage tid (.loaded pack s.backlog.replCommandIncr)
        window := note tid s.backlog.replCommandIncr s.window }
    | _ => none
  | .increment tid =>
    match s.stage tid with
    | .loaded pack id => some
      { s with
        backlog := { s.backlog with replCommandIncr := s.backlog.replCommandIncr + 1 }
        stage := Function.update s.stage tid (.incremented pack id) }
    | _ => none
  | .append tid =>
    match s.stage tid with
    | .incremented pack id => some
      { s with
        backlog := s.backlog.put s.backlog.replPos tid ⟨id, pack⟩
        stage := Function.update s.stage tid .idle }
    | _ => none
  | .merge =>
    if ∀ tid, s.stage tid = .idle then
      some { s with backlog := (s.backlog.mergeBacklogFeedSlaves sorting).1, window := [] }
    else none

/-- The cell a packet is about. -/
def cellOf (parse : ParseHset) (pack : Pack) : Cell := ((parse pack.body).key, (parse pack.body).field)

/-- `b`'s number, once it has one, is above `a`'s. -/
def Follows (a b : Applied m) : Prop := ∀ j, b.id = some j → ∃ i, a.id = some i ∧ i < j

/-- The command of a worker that is about to load a number. -/
def Stage.awaiting : Stage → Option Pack
  | .applied pack => some pack
  | _ => none

/-- When a worker loads its number, every command on the same cell that was applied
before its own and is not merged yet has a smaller number already. -/
def LoadsInOrder (parse : ParseHset) (s : State m) : Event m → Prop
  | .load tid => ∀ pack ∈ (s.stage tid).awaiting,
      ∀ a ∈ s.window.takeWhile fun a => ¬ (a.tid = tid ∧ a.id = none),
        cellOf parse a.pack = cellOf parse pack → ∃ i ∈ a.id, i < s.backlog.replCommandIncr
  | _ => True

/-- Whether a load comes in order can be decided. -/
instance (parse : ParseHset) (s : State m) : ∀ event, Decidable (LoadsInOrder parse s event)
  | .load _ => by unfold LoadsInOrder; infer_instance
  | .apply _ _ _ | .increment _ | .append _ | .merge => isTrue trivial

/-- What a worker's stage says of its open command. -/
def Stage.opened : Stage → List (Option Nat × Pack)
  | .idle => []
  | .applied pack => [(none, pack)]
  | .loaded pack id => [(some id, pack)]
  | .incremented pack id => [(some id, pack)]

/-- The invariant. The AOF leads to a store from which the open window leads to the
live one; a worker's commands of the window are the records of its slot and its
open command; numbers are below the counter, except one just loaded; and the
numbers of one worker, and those on one cell, follow the order of application. -/
structure Inv (parse : ParseHset) (begin : Cell → Option Object) (prior : List Pack) (s : State m) : Prop where
  flushed : s.backlog.backLog = []
  writes : ∀ a ∈ s.window, ∃ w, Writes parse a.pack w
  live : ∃ logged base, s.backlog.aof = prior ++ logged ∧ performPacks parse begin logged = some base ∧
    performPacks parse base (s.window.map Applied.pack) = some s.db.cells
  slots : ∀ tid, (s.window.filter fun a => a.tid = tid).map (fun a => (a.id, a.pack)) =
    (s.backlog.repl s.backlog.replPos tid).map (fun r => (some r.id, r.pack)) ++ (s.stage tid).opened
  below : ∀ a ∈ s.window, ∀ i, a.id = some i → i < s.backlog.replCommandIncr ∨
    s.stage a.tid = .loaded a.pack i ∧ i = s.backlog.replCommandIncr
  ordered : s.window.Pairwise fun a b => a.tid = b.tid ∨ cellOf parse a.pack = cellOf parse b.pack → Follows a b

/-- Noting a number leaves the packets as they are. -/
theorem note_pack (tid : Fin m) (id : Nat) (window : List (Applied m)) :
    (note tid id window).map Applied.pack = window.map Applied.pack := by
  rw [note, List.map_map]
  apply List.map_congr_left
  intro a _
  simp only [Function.comp_apply]
  split <;> rfl

/-- The open command of a worker that has not loaded a number: the last of its
commands in the window, and the only one without a number. -/
theorem Inv.opened {parse : ParseHset} {begin : Cell → Option Object} {prior : List Pack} {s : State m} {tid : Fin m}
    {pack : Pack} (inv : Inv parse begin prior s) (stage : s.stage tid = .applied pack) :
    ∃ front back, s.window = front ++ ⟨tid, none, pack⟩ :: back ∧
      ((front.filter fun a => a.tid = tid).map fun a => (a.id, a.pack)) =
        (s.backlog.repl s.backlog.replPos tid).map (fun r => (some r.id, r.pack)) ∧
      ∀ a ∈ back, a.tid ≠ tid := by
  have slot := inv.slots tid
  rw [stage, Stage.opened] at slot
  obtain ⟨records, last, split, before, behind⟩ := List.map_eq_append_iff.mp slot
  obtain ⟨b, rest, rfl, same, nothing⟩ := List.map_eq_cons_iff.mp behind
  obtain rfl := List.map_eq_nil_iff.mp nothing
  obtain ⟨front, tail, window, first, behind⟩ := List.filter_eq_append_iff.mp split
  obtain ⟨middle, back, rfl, outside, own, after⟩ := List.filter_eq_cons_iff.mp behind
  obtain ⟨btid, bid, bpack⟩ := b
  obtain ⟨rfl, rfl⟩ := Prod.mk.inj same
  obtain rfl : btid = tid := of_decide_eq_true own
  refine ⟨front ++ middle, back, ?_, ?_, ?_⟩
  · rw [window, List.append_assoc]
  · rw [List.filter_append, first, List.filter_eq_nil_iff.mpr outside, List.append_nil, before]
  · intro a member own
    exact List.filter_eq_nil_iff.mp after a member (decide_eq_true own)

/-- Every command of a worker before its open one has a number. -/
theorem numbered {records : List Record} {front : List (Applied m)} {tid : Fin m}
    (earlier : ((front.filter fun a => a.tid = tid).map fun a => (a.id, a.pack)) =
      records.map fun r => (some r.id, r.pack)) (a : Applied m) (member : a ∈ front) (own : a.tid = tid) :
    ∃ i, a.id = some i := by
  have inside : (a.id, a.pack) ∈ (front.filter fun a => a.tid = tid).map fun a => (a.id, a.pack) :=
    List.mem_map.mpr ⟨a, List.mem_filter.mpr ⟨member, decide_eq_true own⟩, rfl⟩
  rw [earlier] at inside
  obtain ⟨r, _, same⟩ := List.mem_map.mp inside
  exact ⟨r.id, (Prod.mk.inj same).1.symm⟩

/-- The noted number stands at the open command alone. The commands of the worker before it have
theirs, and there are none of it behind. -/
theorem note_split {records : List Record} {front back : List (Applied m)} {tid : Fin m} (pack : Pack) (id : Nat)
    (earlier : ((front.filter fun a => a.tid = tid).map fun a => (a.id, a.pack)) =
      records.map fun r => (some r.id, r.pack)) (later : ∀ a ∈ back, a.tid ≠ tid) :
    note tid id (front ++ ⟨tid, none, pack⟩ :: back) = front ++ ⟨tid, some id, pack⟩ :: back := by
  have same : ∀ part : List (Applied m), (∀ a ∈ part, ¬ (a.tid = tid ∧ a.id = none)) → note tid id part = part := by
    intro part apart
    rw [note, ← List.map_id' part, List.map_map]
    apply List.map_congr_left
    intro a member
    exact if_neg (apart a member)
  have front' : note tid id front = front := by
    apply same
    rintro a member ⟨own, unnumbered⟩
    obtain ⟨i, number⟩ := numbered earlier a member own
    rw [unnumbered] at number
    exact absurd number (by simp)
  have back' : note tid id back = back := same back fun a member both => later a member both.1
  have split : note tid id (front ++ ⟨tid, none, pack⟩ :: back) =
      note tid id front ++ ⟨tid, some id, pack⟩ :: note tid id back := by
    simp only [note, List.map_append, List.map_cons, and_self, ↓reduceIte]
  rw [split, front', back']

/-- The commands of a worker in a window that begins with one of them. -/
theorem filter_own (tid : Fin m) (id : Option Nat) (pack : Pack) (rest : List (Applied m)) :
    (⟨tid, id, pack⟩ :: rest).filter (fun a => a.tid = tid) =
      ⟨tid, id, pack⟩ :: rest.filter fun a => a.tid = tid :=
  List.filter_cons_of_pos (decide_eq_true rfl)

/-- The commands of a worker in a window that begins with another's. -/
theorem filter_other {tid other : Fin m} (apart : ¬ other = tid) (id : Option Nat) (pack : Pack)
    (rest : List (Applied m)) :
    (⟨tid, id, pack⟩ :: rest).filter (fun a => a.tid = other) = rest.filter fun a => a.tid = other :=
  List.filter_cons_of_neg fun same => apart (of_decide_eq_true same).symm

variable {parse : ParseHset} {sorting : Sorting m} {begin : Cell → Option Object} {prior : List Pack} {s s' : State m}

/-- A number below the counter, or just loaded, is below it or its worker has it loaded. -/
theorem Inv.numberBelow (inv : Inv parse begin prior s) {a : Applied m} {i : Nat} (member : a ∈ s.window)
    (number : a.id = some i) (elsewhere : ∀ pack id, s.stage a.tid ≠ .loaded pack id) :
    i < s.backlog.replCommandIncr := by
  rcases inv.below a member i number with less | ⟨loaded, _⟩
  · exact less
  · exact absurd loaded (elsewhere a.pack i)

/-- The numbers of the window stay below the counter, or loaded, when a worker goes on
that has none loaded. -/
theorem Inv.below_goto (inv : Inv parse begin prior s) {tid : Fin m} (stage : Stage)
    (elsewhere : ∀ pack id, s.stage tid ≠ .loaded pack id) {a : Applied m} {i : Nat} (member : a ∈ s.window)
    (number : a.id = some i) :
    i < s.backlog.replCommandIncr ∨
      Function.update s.stage tid stage a.tid = .loaded a.pack i ∧ i = s.backlog.replCommandIncr := by
  by_cases here : a.tid = tid
  · exact Or.inl (inv.numberBelow member number (here ▸ elsewhere))
  · rw [Function.update_of_ne here]
    exact inv.below a member i number

/-- An accepted command joins the window, without a number. It stands at the end of the window,
where it was applied, and no number is in front of it that it must exceed. -/
theorem Inv.accept (inv : Inv parse begin prior s) {tid : Fin m} {clock : Clock} {pack : Pack} {db : Buckets}
    {reply : CommandReply} (idle : s.stage tid = .idle) (hset : pack.type = clientHset)
    (executed : execPack parse clock s.db pack = some (db, reply)) (code : reply.errcode = 0) :
    Inv parse begin prior
      { s with
        db := db
        stage := Function.update s.stage tid (.applied pack)
        window := s.window ++ [⟨tid, none, pack⟩] } where
  flushed := inv.flushed
  writes := by
    intro a member
    rcases List.mem_append.mp member with before | last
    · exact inv.writes a before
    · obtain rfl := List.mem_singleton.mp last
      obtain ⟨w, writes, _⟩ := execPack_accepted hset executed code
      exact ⟨w, writes⟩
  live := by
    obtain ⟨logged, base, aof, replayed, live⟩ := inv.live
    have performed := execPack_cells parse clock s.db pack
    rw [executed] at performed
    refine ⟨logged, base, aof, replayed, ?_⟩
    rw [List.map_append]
    exact performAll_snoc live performed.symm
  slots := by
    intro other
    dsimp only
    have slot := inv.slots other
    rw [List.filter_append, List.map_append, slot]
    by_cases here : other = tid
    · subst here
      rw [idle, Function.update_self, filter_own, Stage.opened, List.append_nil]
      rfl
    · rw [Function.update_of_ne here, filter_other here]
      exact List.append_nil _
  below := by
    intro a member i number
    dsimp only
    rcases List.mem_append.mp member with before | last
    · apply inv.below_goto _ _ before number
      intro pack id loaded
      cases idle.symm.trans loaded
    · obtain rfl := List.mem_singleton.mp last
      cases number
  ordered := by
    apply List.pairwise_append.mpr
    refine ⟨inv.ordered, List.pairwise_singleton _ _, ?_⟩
    rintro a _ b last _ j number
    obtain rfl := List.mem_singleton.mp last
    cases number

/-- A refused command changes no cell. -/
theorem Inv.refuse (inv : Inv parse begin prior s) {clock : Clock} {pack : Pack} {db : Buckets}
    {reply : CommandReply} (hset : pack.type = clientHset)
    (executed : execPack parse clock s.db pack = some (db, reply)) (code : reply.errcode ≠ 0) :
    Inv parse begin prior { s with db := db } where
  flushed := inv.flushed
  writes := inv.writes
  live := by
    rw [execPack_refused hset executed code]
    exact inv.live
  slots := inv.slots
  below := inv.below
  ordered := inv.ordered

/-- The commands in front of the open one of a worker. -/
theorem before_open {records : List Record} {front : List (Applied m)} {tid : Fin m} (pack : Pack)
    (back : List (Applied m))
    (earlier : ((front.filter fun a => a.tid = tid).map fun a => (a.id, a.pack)) =
      records.map fun r => (some r.id, r.pack)) :
    (front ++ ⟨tid, none, pack⟩ :: back).takeWhile (fun a => ¬ (a.tid = tid ∧ a.id = none)) = front := by
  rw [List.takeWhile_append_of_pos, List.takeWhile_cons_of_neg, List.append_nil]
  · simp
  · intro a member
    apply decide_eq_true
    rintro ⟨own, unnumbered⟩
    obtain ⟨i, number⟩ := numbered earlier a member own
    cases unnumbered.symm.trans number

/-- The order of the numbers stays when the open command gets one above those in front
of it of the same worker or on the same cell. -/
theorem ordered_number {front back : List (Applied m)} {tid : Fin m} {pack : Pack} {id : Nat}
    (ordered : (front ++ ⟨tid, none, pack⟩ :: back).Pairwise fun a b =>
      a.tid = b.tid ∨ cellOf parse a.pack = cellOf parse b.pack → Follows a b)
    (above : ∀ a ∈ front, a.tid = tid ∨ cellOf parse a.pack = cellOf parse pack → ∃ i, a.id = some i ∧ i < id) :
    (front ++ ⟨tid, some id, pack⟩ :: back).Pairwise fun a b =>
      a.tid = b.tid ∨ cellOf parse a.pack = cellOf parse b.pack → Follows a b := by
  obtain ⟨orderedFront, orderedBack, across⟩ := List.pairwise_append.mp ordered
  obtain ⟨behind, orderedBack⟩ := List.pairwise_cons.mp orderedBack
  apply List.pairwise_append.mpr
  refine ⟨orderedFront, List.pairwise_cons.mpr ⟨?_, orderedBack⟩, ?_⟩
  · intro c member related j number
    obtain ⟨i, impossible, _⟩ := behind c member related j number
    cases impossible
  · intro a member b inside related
    rcases List.mem_cons.mp inside with rfl | after
    · intro j number
      obtain rfl := Option.some.inj number
      exact above a member related
    · exact across a member b (List.mem_cons_of_mem _ after) related

/-- A command of the window in which the open one has its number: one of the old window, or the
open one. -/
theorem mem_numbered {front back : List (Applied m)} {tid : Fin m} {pack : Pack} {id : Nat} {a : Applied m}
    (member : a ∈ front ++ ⟨tid, some id, pack⟩ :: back) :
    a ∈ front ++ ⟨tid, none, pack⟩ :: back ∨ a = ⟨tid, some id, pack⟩ := by
  rcases List.mem_append.mp member with before | member
  · exact Or.inl (List.mem_append_left _ before)
  · rcases List.mem_cons.mp member with rfl | after
    · exact Or.inr rfl
    · exact Or.inl (List.mem_append_right _ (List.mem_cons_of_mem _ after))

/-- The commands of each worker in the window in which the open one has its number. Only its own
worker gets one more. -/
theorem filter_numbered {records : List Record} {front back : List (Applied m)} {tid : Fin m} (pack : Pack) (id : Nat)
    (earlier : ((front.filter fun a => a.tid = tid).map fun a => (a.id, a.pack)) =
      records.map fun r => (some r.id, r.pack)) (later : ∀ a ∈ back, a.tid ≠ tid) (other : Fin m) :
    ((front ++ ⟨tid, some id, pack⟩ :: back).filter fun a => a.tid = other).map (fun a => (a.id, a.pack)) =
      if other = tid then records.map (fun r => (some r.id, r.pack)) ++ [(some id, pack)]
      else ((front ++ ⟨tid, none, pack⟩ :: back).filter fun a => a.tid = other).map fun a => (a.id, a.pack) := by
  split
  · rename_i here
    subst here
    have others : back.filter (fun a => a.tid = other) = [] :=
      List.filter_eq_nil_iff.mpr fun a member own => later a member (of_decide_eq_true own)
    rw [List.filter_append, filter_own, others, List.map_append, earlier]
    rfl
  · rename_i apart
    rw [List.filter_append, filter_other apart, List.filter_append, filter_other apart]

/-- A load gives the open command its number. Above the numbers of the same worker
it is because the worker has incremented the counter since; above those on the same
cell by the condition. -/
theorem Inv.load (inv : Inv parse begin prior s) {tid : Fin m} {pack : Pack} (stage : s.stage tid = .applied pack)
    (inOrder : LoadsInOrder parse s (.load tid)) :
    Inv parse begin prior
      { s with
        stage := Function.update s.stage tid (.loaded pack s.backlog.replCommandIncr)
        window := note tid s.backlog.replCommandIncr s.window } := by
  obtain ⟨front, back, window, earlier, later⟩ := inv.opened stage
  have notLoaded : ∀ pack id, s.stage tid ≠ .loaded pack id := by
    intro pack id loaded
    cases stage.symm.trans loaded
  have noted : note tid s.backlog.replCommandIncr s.window =
      front ++ ⟨tid, some s.backlog.replCommandIncr, pack⟩ :: back := by
    rw [window]
    exact note_split pack _ earlier later
  constructor
  · exact inv.flushed
  · intro a member
    rw [noted] at member
    rcases mem_numbered member with before | rfl
    · exact inv.writes a (window ▸ before)
    · refine inv.writes ⟨tid, none, pack⟩ ?_
      rw [window]
      exact List.mem_append_right _ List.mem_cons_self
  · rw [note_pack]
    exact inv.live
  · intro other
    dsimp only
    rw [noted, filter_numbered pack _ earlier later]
    split
    · rename_i here
      rw [here, Function.update_self]
      rfl
    · rename_i apart
      rw [Function.update_of_ne apart, ← window, inv.slots other]
  · intro a member i number
    dsimp only at member ⊢
    rw [noted] at member
    rcases mem_numbered member with before | rfl
    · exact inv.below_goto _ notLoaded (window ▸ before) number
    · obtain rfl := Option.some.inj number
      exact Or.inr ⟨Function.update_self _ _ _, rfl⟩
  · have ordered := inv.ordered
    rw [window] at ordered
    rw [noted]
    apply ordered_number ordered
    rintro a member (own | cell)
    · obtain ⟨i, number⟩ := numbered earlier a member own
      have inside : a ∈ s.window := window ▸ List.mem_append_left _ member
      exact ⟨i, number, inv.numberBelow inside number (own ▸ notLoaded)⟩
    · refine inOrder pack ?_ a ?_ cell
      · rw [stage]
        rfl
      · rw [window, before_open pack back earlier]
        exact member

/-- An increment puts the number that was loaded below the counter. No other number changes,
and the worker is no longer between load and increment. -/
theorem Inv.increment (inv : Inv parse begin prior s) {tid : Fin m} {pack : Pack} {id : Nat}
    (stage : s.stage tid = .loaded pack id) :
    Inv parse begin prior
      { s with
        backlog := { s.backlog with replCommandIncr := s.backlog.replCommandIncr + 1 }
        stage := Function.update s.stage tid (.incremented pack id) } where
  flushed := inv.flushed
  writes := inv.writes
  live := inv.live
  slots := by
    intro other
    dsimp only
    have slot := inv.slots other
    by_cases here : other = tid
    · subst here
      rw [stage] at slot
      rw [Function.update_self]
      exact slot
    · rw [Function.update_of_ne here]
      exact slot
  below := by
    intro a member i number
    dsimp only
    apply Or.inl
    rcases inv.below a member i number with less | ⟨_, same⟩
    · exact Nat.lt_succ_of_lt less
    · exact same ▸ Nat.lt_succ_self _
  ordered := inv.ordered

/-- An append turns the open command into a record. The record stands behind the worker's
others, as its command does in the window. -/
theorem Inv.append (inv : Inv parse begin prior s) {tid : Fin m} {pack : Pack} {id : Nat}
    (stage : s.stage tid = .incremented pack id) :
    Inv parse begin prior
      { s with
        backlog := s.backlog.put s.backlog.replPos tid ⟨id, pack⟩
        stage := Function.update s.stage tid .idle } where
  flushed := inv.flushed
  writes := inv.writes
  live := inv.live
  slots := by
    intro other
    dsimp only
    have slot := inv.slots other
    have current : (s.backlog.put s.backlog.replPos tid ⟨id, pack⟩).repl s.backlog.replPos =
        Function.update (s.backlog.repl s.backlog.replPos) tid
          (s.backlog.repl s.backlog.replPos tid ++ [⟨id, pack⟩]) := Function.update_self _ _ _
    have same : (s.backlog.put s.backlog.replPos tid ⟨id, pack⟩).replPos = s.backlog.replPos := rfl
    rw [same, current]
    by_cases here : other = tid
    · subst here
      rw [stage] at slot
      rw [Function.update_self, Function.update_self, slot, List.map_append, Stage.opened, List.append_nil]
      rfl
    · rw [Function.update_of_ne here, Function.update_of_ne here]
      exact slot
  below := by
    intro a member i number
    dsimp only
    apply inv.below_goto _ _ member number
    intro pack id loaded
    cases stage.symm.trans loaded
  ordered := inv.ordered

/-- The cell of an `hset` with a value is the one it writes. -/
theorem writes_cell {pack : Pack} {w : Cell × Object} (writes : Writes parse pack w) : w.1 = cellOf parse pack := by
  obtain ⟨value, _, rfl⟩ := Option.map_eq_some_iff.mp writes.2
  rfl

/-- What a log of such commands writes to a cell is decided by its commands on that cell. By
induction on the log: a command on another cell writes nothing to this one. -/
theorem writesTo_filter (c : Cell) (packs : List Pack) (writes : ∀ p ∈ packs, ∃ w, Writes parse p w) :
    writesTo c (writesOf (entryOf parse) packs) =
      writesTo c (writesOf (entryOf parse) (packs.filter fun p => cellOf parse p = c)) := by
  induction packs with
  | nil => rfl
  | cons p packs ih =>
    have rest := ih fun q member => writes q (List.mem_cons_of_mem _ member)
    obtain ⟨w, own⟩ := writes p List.mem_cons_self
    have first : writesOf (entryOf parse) [p] = [w] := by
      rw [writesOf, List.flatMap_singleton, own.entry]
      rfl
    rw [← List.singleton_append, writesOf_append, writesTo_append, rest, List.filter_append, writesOf_append,
      writesTo_append]
    by_cases here : cellOf parse p = c
    · have kept : [p].filter (fun p => cellOf parse p = c) = [p] := by simp [here]
      rw [kept]
    · have dropped : [p].filter (fun p => cellOf parse p = c) = [] := by simp [here]
      rw [dropped, first, writesTo_cons_of_ne w [] fun same => here ((writes_cell own).symm.trans same)]
      rfl

/-- The record that a numbered command has become. -/
def Applied.record (a : Applied m) : Record := ⟨a.id.getD 0, a.pack⟩

/-- With every worker idle the slots hold the window, dealt to its workers. None of its commands
is open, so each has its number. -/
theorem Inv.dealt (inv : Inv parse begin prior s) (idle : ∀ tid, s.stage tid = .idle) :
    s.backlog.repl s.backlog.replPos = deal (s.window.map fun a => (a.tid, a.record)) ∧
      ∀ a ∈ s.window, ∃ i, a.id = some i := by
  have slots : ∀ tid, (s.window.filter fun a => a.tid = tid).map (fun a => (a.id, a.pack)) =
      (s.backlog.repl s.backlog.replPos tid).map fun r => (some r.id, r.pack) := by
    intro tid
    have slot := inv.slots tid
    rw [idle tid, Stage.opened, List.append_nil] at slot
    exact slot
  constructor
  · funext tid
    have records := congrArg (List.map fun x : Option Nat × Pack => (⟨x.1.getD 0, x.2⟩ : Record)) (slots tid)
    rw [List.map_map, List.map_map] at records
    rw [deal, List.filter_map, List.map_map]
    exact (records.trans (List.map_id _)).symm
  · intro a member
    exact numbered (slots a.tid) a member rfl

/-- The order of numbers among some commands of the window. -/
theorem Inv.orderedAmong (inv : Inv parse begin prior s) (among : Applied m → Bool) :
    (s.window.filter among).Pairwise fun a b =>
      a.tid = b.tid ∨ cellOf parse a.pack = cellOf parse b.pack → Follows a b :=
  inv.ordered.sublist List.filter_sublist

/-- With every worker idle, a merge writes for every cell the commands of the window in the
order in which they were applied. The merge sorts the records by number; for one cell the
numbers increase in the window, so the records of the cell come in the order of the window. -/
theorem Inv.merged (inv : Inv parse begin prior s) (idle : ∀ tid, s.stage tid = .idle) (sorting : Sorting m) :
    ∃ packs, (s.backlog.mergeBacklogFeedSlaves sorting).1.aof = s.backlog.aof ++ packs ∧
      packs.Perm (s.window.map Applied.pack) ∧
      ∀ c, packs.filter (fun p => cellOf parse p = c) =
        (s.window.map Applied.pack).filter fun p => cellOf parse p = c := by
  obtain ⟨slots, numbers⟩ := inv.dealt idle
  have follow : ∀ {a b : Applied m}, b ∈ s.window → Follows a b → a.record.id < b.record.id := by
    intro a b member follows
    obtain ⟨j, number⟩ := numbers b member
    obtain ⟨i, number', less⟩ := follows j number
    rw [Applied.record, Applied.record, number, number']
    exact less
  have sorted : ∀ slot, (s.backlog.repl s.backlog.replPos slot).Pairwise fun l r => l.id ≤ r.id := by
    intro slot
    rw [slots, deal, List.filter_map, List.map_map]
    apply List.pairwise_map.mpr
    refine (inv.orderedAmong _).imp_of_mem ?_
    intro a b left right related
    obtain ⟨_, atid⟩ := List.mem_filter.mp left
    obtain ⟨inside, btid⟩ := List.mem_filter.mp right
    exact Nat.le_of_lt (follow inside (related (Or.inl ((of_decide_eq_true atid).trans (of_decide_eq_true btid).symm))))
  have perm := kWayMerge_perm sorting Record.id (s.backlog.repl s.backlog.replPos)
  have order := kWayMerge_sorted sorting Record.id _ sorted
  rw [slots] at perm order
  have all : (kWayMerge sorting Record.id (deal (s.window.map fun a => (a.tid, a.record)))).Perm
      (s.window.map Applied.record) := by
    have dealt := perm.trans (entriesOf_deal _)
    rw [List.map_map] at dealt
    exact dealt
  refine ⟨_, s.backlog.merge_aof sorting inv.flushed, ?_, fun c => ?_⟩
  · rw [slots]
    have packs := all.map Record.pack
    rw [List.map_map] at packs
    exact packs
  · have increasing : ((s.window.map Applied.record).filter fun r => cellOf parse r.pack = c).Pairwise
        fun l r => l.id < r.id := by
      rw [List.filter_map]
      apply List.pairwise_map.mpr
      refine (inv.orderedAmong _).imp_of_mem ?_
      intro a b left right related
      obtain ⟨_, acell⟩ := List.mem_filter.mp left
      obtain ⟨inside, bcell⟩ := List.mem_filter.mp right
      exact follow inside (related (Or.inr ((of_decide_eq_true acell).trans (of_decide_eq_true bcell).symm)))
    have same := eq_of_perm_increasing Record.id (all.filter fun r => cellOf parse r.pack = c)
      (order.sublist List.filter_sublist) increasing
    have packs := congrArg (List.map Record.pack) same
    rw [slots, List.filter_map, List.filter_map]
    rw [List.filter_map, List.map_map] at packs
    exact packs

/-- A merge: the AOF now leads to the live store. Cell by cell it has the commands of the
window in their order, and the window is empty behind it. -/
theorem Inv.merge (inv : Inv parse begin prior s) (idle : ∀ tid, s.stage tid = .idle) :
    Inv parse begin prior
      { s with backlog := (s.backlog.mergeBacklogFeedSlaves sorting).1, window := [] } := by
  obtain ⟨flushed, empty⟩ := s.backlog.merge_empties sorting inv.flushed
  constructor
  · exact flushed
  · exact fun a member => absurd member List.not_mem_nil
  · obtain ⟨logged, base, aof, replayed, live⟩ := inv.live
    obtain ⟨packs, aof', perm, cells⟩ := inv.merged idle sorting
    have windowWrites : ∀ p ∈ s.window.map Applied.pack, ∃ w, Writes parse p w := by
      intro p member
      obtain ⟨a, inside, rfl⟩ := List.mem_map.mp member
      exact inv.writes a inside
    have mergedWrites : ∀ p ∈ packs, ∃ w, Writes parse p w := fun p member => windowWrites p (perm.subset member)
    have ready : ∀ p ∈ packs, Ready (entryOf parse) base p := by
      intro p member
      obtain ⟨w, writes⟩ := mergedWrites p member
      exact ⟨_, writes.entry, fun _ impossible => by cases impossible⟩
    have same : replay Object.type base (writesOf (entryOf parse) packs) = s.db.cells := by
      rw [(performAll_eq live).1]
      funext c
      rw [replay_cell, replay_cell, writesTo_filter c packs mergedWrites, cells c,
        ← writesTo_filter c _ windowWrites]
    have performed : performPacks parse base packs = some s.db.cells := by
      rw [← same]
      exact performAll_ready base packs ready
    refine ⟨logged ++ packs, s.db.cells, ?_, performAll_join replayed performed, rfl⟩
    rw [aof', aof, List.append_assoc]
  · intro tid
    dsimp only
    rw [empty, idle]
    rfl
  · exact fun a member => absurd member List.not_mem_nil
  · exact List.Pairwise.nil

/-- Every step keeps the invariant when loads are in order. One lemma for each event. -/
theorem Inv.step (inv : Inv parse begin prior s) (event : Event m) (inOrder : LoadsInOrder parse s event)
    (stepped : step parse sorting s event = some s') : Inv parse begin prior s' := by
  cases event with
  | apply tid clock pack =>
    rw [CommandOrder.step] at stepped
    by_cases guard : s.stage tid = .idle ∧ pack.type = clientHset
    · rw [if_pos guard] at stepped
      obtain ⟨⟨db, reply⟩, executed, rfl⟩ := Option.map_eq_some_iff.mp stepped
      by_cases code : reply.errcode = 0
      · rw [if_pos code]
        exact inv.accept guard.1 guard.2 executed code
      · rw [if_neg code]
        exact inv.refuse guard.2 executed code
    · rw [if_neg guard] at stepped
      exact absurd stepped (by simp)
  | load tid =>
    rw [CommandOrder.step] at stepped
    cases stage : s.stage tid with
    | applied pack =>
      simp only [stage, Option.some.injEq] at stepped
      subst stepped
      exact inv.load stage inOrder
    | _ => simp [stage] at stepped
  | increment tid =>
    rw [CommandOrder.step] at stepped
    cases stage : s.stage tid with
    | loaded pack id =>
      simp only [stage, Option.some.injEq] at stepped
      subst stepped
      exact inv.increment stage
    | _ => simp [stage] at stepped
  | append tid =>
    rw [CommandOrder.step] at stepped
    cases stage : s.stage tid with
    | incremented pack id =>
      simp only [stage, Option.some.injEq] at stepped
      subst stepped
      exact inv.append stage
    | _ => simp [stage] at stepped
  | merge =>
    rw [CommandOrder.step] at stepped
    by_cases idle : ∀ tid, s.stage tid = .idle
    · rw [if_pos idle] at stepped
      obtain rfl := Option.some.inj stepped
      exact inv.merge idle
    · rw [if_neg idle] at stepped
      exact absurd stepped (by simp)

/-- The invariant holds before the first command. -/
theorem Inv.start (parse : ParseHset) (db : Buckets) (rotateAofFileSize : Nat) (files : List (List Pack)) :
    Inv parse db.cells files.flatten (start db rotateAofFileSize files : State m) where
  flushed := rfl
  writes := fun _ member => absurd member List.not_mem_nil
  live := ⟨[], db.cells, (RotateFileStream.rotateInit_grows rotateAofFileSize files).flatten, rfl, rfl⟩
  slots := fun _ => rfl
  below := fun _ member => absurd member List.not_mem_nil
  ordered := List.Pairwise.nil

/-- In every run in which a number is loaded only when all earlier open commands on the same
cell have a smaller one, and which ends with a merge, replaying what the run has added to the
AOF leads from the first store to the live one.

Proof: the invariant is about the commands that no merge has written, in the order in which
they were applied. Replayed in that order they give the live store; the condition keeps the
numbers of each cell in that order, so sorting by number moves only commands of different
cells past one another, which changes no cell. -/
theorem replay_is_live (parse : ParseHset) (sorting : Sorting m) (clock : Clock) (db : Buckets)
    (rotateAofFileSize : Nat) (files : List (List Pack)) (events : List (Event m)) (last : State m)
    (inOrder : Along (step parse sorting) (LoadsInOrder parse) (start db rotateAofFileSize files)
      (events ++ [.merge]))
    (ran : run (step parse sorting) (start db rotateAofFileSize files) (events ++ [.merge]) = some last) :
    ∃ db', replayAof parse clock db (last.backlog.aof.drop files.flatten.length) = some db' ∧
      db'.cells = last.db.cells := by
  have inv := run_invariant (Inv parse db.cells files.flatten)
    (fun _ event _ inv inOrder stepped => inv.step event inOrder stepped) _ last _
    (Inv.start parse db rotateAofFileSize files) inOrder ran
  obtain ⟨before, _, merged⟩ := run_snoc _ last events .merge ran
  have closed : last.window = [] := by
    rw [step] at merged
    by_cases idle : ∀ tid, before.stage tid = .idle
    · rw [if_pos idle] at merged
      obtain rfl := Option.some.inj merged
      rfl
    · rw [if_neg idle] at merged
      exact absurd merged (by simp)
  obtain ⟨logged, base, aof, replayed, live⟩ := inv.live
  rw [closed] at live
  obtain rfl := Option.some.inj live
  rw [aof, List.drop_left]
  exact replayAof_of_perform clock replayed

/-- Two workers set one cell, one after the other; both replay in that order. The second applies
when the first has appended. -/
theorem replay_is_live_two :
    ∃ last db', run (step keyedHset (Sorting.insertion 2)) (start Buckets.empty 2 [])
        [.apply 0 ⟨0, 0⟩ (keyedPack 1 1), .load 0, .increment 0, .append 0, .apply 1 ⟨0, 0⟩ (keyedPack 1 2),
          .load 1, .increment 1, .append 1, .merge] = some last ∧
      replayAof keyedHset ⟨0, 0⟩ Buckets.empty last.backlog.aof = some db' ∧ db'.cells = last.db.cells := by
  have runs : (run (step keyedHset (Sorting.insertion 2)) (start Buckets.empty 2 [])
      ([.apply 0 ⟨0, 0⟩ (keyedPack 1 1), .load 0, .increment 0, .append 0, .apply 1 ⟨0, 0⟩ (keyedPack 1 2),
        .load 1, .increment 1, .append 1] ++ [.merge])).isSome := by
    decide +kernel
  obtain ⟨last, ran⟩ := Option.isSome_iff_exists.mp runs
  obtain ⟨db', replayed, live⟩ := replay_is_live keyedHset (Sorting.insertion 2) ⟨0, 0⟩ Buckets.empty 2 []
    [.apply 0 ⟨0, 0⟩ (keyedPack 1 1), .load 0, .increment 0, .append 0, .apply 1 ⟨0, 0⟩ (keyedPack 1 2),
      .load 1, .increment 1, .append 1] last (by decide +kernel) ran
  exact ⟨last, db', ran, replayed, live⟩

/-- Two workers set one cell; the second to apply is the first to load a number. So the merge
writes its command first, and a replay leaves the cell with the other value. -/
theorem replay_not_live :
    ¬ ∀ (events : List (Event 2)) (last : State 2) (db' : Buckets),
      run (step keyedHset (Sorting.insertion 2)) (start Buckets.empty 2 []) (events ++ [.merge]) = some last →
        replayAof keyedHset ⟨0, 0⟩ Buckets.empty last.backlog.aof = some db' → db'.cells = last.db.cells := by
  intro always
  have ran : (run (step keyedHset (Sorting.insertion 2)) (start Buckets.empty 2 [])
      ([.apply 0 ⟨0, 0⟩ (keyedPack 1 1), .apply 1 ⟨0, 0⟩ (keyedPack 1 2), .load 1, .increment 1, .append 1,
        .load 0, .increment 0, .append 0] ++ [.merge])).map (fun s => (s.backlog.aof, s.db.cells ([1], []))) =
        some ([keyedPack 1 2, keyedPack 1 1], some (.string [2])) := by
    decide +kernel
  have replayed : (replayAof keyedHset ⟨0, 0⟩ Buckets.empty [keyedPack 1 2, keyedPack 1 1]).map
      (fun db => db.cells ([1], [])) = some (some (.string [1])) := by
    decide +kernel
  obtain ⟨last, ran, same⟩ := Option.map_eq_some_iff.mp ran
  obtain ⟨db', replayed, cell⟩ := Option.map_eq_some_iff.mp replayed
  obtain ⟨aof, live⟩ := Prod.mk.inj same
  have equal := congrFun (always _ last db' ran (aof ▸ replayed)) ([1], [])
  rw [cell, live] at equal
  exact absurd equal (by decide)

end Naruto.Replication.CommandOrder
