import Naruto.Theory.TypedCells

/-!
# Logs of partial commands

A command of a log writes a cell, or needs a cell to hold something, or does
nothing; some commands are undefined. A log is performed command after command,
as far as each is defined. Performing a log again from where it has led changes
nothing, so a snapshot and a log that overlaps it combine as for plain writes.
-/

namespace Naruto.Theory

variable {C V K P : Type*} [DecidableEq C] [DecidableEq K]

/-- What a command does to a store of cells. -/
inductive Entry (C V : Type*)
  | write (c : C) (v : V)
  | touch (c : C)
  | skip

/-- A write always succeeds, a touch needs its cell. -/
def Entry.perform (kind : V → K) (s : C → Option V) : Entry C V → Option (C → Option V)
  | .write c v => some (assign kind s (c, v))
  | .touch c => if (s c).isSome then some s else none
  | .skip => some s

/-- The writes of an entry. -/
def Entry.writes : Entry C V → List (C × V)
  | .write c v => [(c, v)]
  | .touch _ => []
  | .skip => []

variable (kind : V → K) (entry : P → Option (Entry C V))

/-- One command; undefined commands have no entry. -/
def perform (s : C → Option V) (p : P) : Option (C → Option V) := (entry p).bind (Entry.perform kind s)

/-- A log of commands, one after another. -/
def performAll (s : C → Option V) (ps : List P) : Option (C → Option V) := ps.foldlM (perform kind entry) s

/-- The writes of a log. -/
def writesOf (ps : List P) : List (C × V) := ps.flatMap fun p => ((entry p).map Entry.writes).getD []

variable {kind entry}

omit [DecidableEq C] in
/-- The writes of a log of two parts. -/
theorem writesOf_append (front back : List P) :
    writesOf entry (front ++ back) = writesOf entry front ++ writesOf entry back := List.flatMap_append

/-- An empty log changes nothing. -/
@[simp] theorem performAll_nil (s : C → Option V) : performAll kind entry s [] = some s := rfl

/-- A log is its first command and the others. -/
theorem performAll_cons (s : C → Option V) (p : P) (ps : List P) :
    performAll kind entry s (p :: ps) = (perform kind entry s p).bind fun t => performAll kind entry t ps :=
  List.foldlM_cons

/-- A log of two parts is performed part by part. -/
theorem performAll_append (s : C → Option V) (front back : List P) :
    performAll kind entry s (front ++ back) =
      (performAll kind entry s front).bind fun t => performAll kind entry t back :=
  List.foldlM_append

/-- A log in two parts that is defined leads through a state between them. -/
theorem performAll_split {s t : C → Option V} {front back : List P}
    (performed : performAll kind entry s (front ++ back) = some t) :
    ∃ u, performAll kind entry s front = some u ∧ performAll kind entry u back = some t :=
  Option.bind_eq_some_iff.mp ((performAll_append s front back).symm.trans performed)

/-- Two logs, one behind the other. -/
theorem performAll_join {s t u : C → Option V} {front back : List P}
    (first : performAll kind entry s front = some u) (second : performAll kind entry u back = some t) :
    performAll kind entry s (front ++ back) = some t := by
  rw [performAll_append, first]
  exact second

/-- One more command. -/
theorem performAll_snoc {s t u : C → Option V} {ps : List P} {p : P}
    (first : performAll kind entry s ps = some u) (last : perform kind entry u p = some t) :
    performAll kind entry s (ps ++ [p]) = some t := by
  refine performAll_join first ?_
  rw [performAll_cons, last]
  rfl

/-- A defined command does its writes and nothing else. One that touches a cell has found it
there. -/
theorem perform_eq {s t : C → Option V} {p : P} (performed : perform kind entry s p = some t) :
    ∃ e, entry p = some e ∧ t = replay kind s e.writes ∧ ∀ c, e = .touch c → (s c).isSome := by
  obtain ⟨e, found, done⟩ := Option.bind_eq_some_iff.mp performed
  refine ⟨e, found, ?_⟩
  cases e with
  | write c v =>
    obtain rfl := Option.some.inj done
    exact ⟨rfl, fun _ impossible => by cases impossible⟩
  | touch c =>
    by_cases present : (s c).isSome
    · rw [Entry.perform, if_pos present] at done
      obtain rfl := Option.some.inj done
      refine ⟨rfl, fun c' same => ?_⟩
      injection same with cell
      exact cell ▸ present
    · rw [Entry.perform, if_neg present] at done
      exact absurd done (by simp)
  | skip =>
    obtain rfl := Option.some.inj done
    exact ⟨rfl, fun _ impossible => by cases impossible⟩

/-- A cell that holds something keeps holding something. -/
theorem replay_present (s : C → Option V) (ws : List (C × V)) (c : C) (present : (s c).isSome) :
    (replay kind s ws c).isSome := by
  obtain ⟨u, holds⟩ := Option.isSome_iff_exists.mp present
  rw [replay_cell, holds, replayCell_some]
  rfl

/-- A command is ready at a store when it is defined and the cell it needs is there. -/
def Ready (entry : P → Option (Entry C V)) (s : C → Option V) (p : P) : Prop :=
  ∃ e, entry p = some e ∧ ∀ c, e = .touch c → (s c).isSome

/-- A ready command does its writes. -/
theorem Ready.perform {s : C → Option V} {p : P} (ready : Ready entry s p) :
    perform kind entry s p = some (replay kind s (writesOf entry [p])) := by
  obtain ⟨e, found, present⟩ := ready
  rw [Theory.perform, found, writesOf, List.flatMap_singleton, found]
  cases e with
  | write c v => rfl
  | touch c => exact if_pos (present c rfl)
  | skip => rfl

/-- What is ready stays ready while the store is written to. -/
theorem Ready.replay {s : C → Option V} {p : P} (ready : Ready entry s p) (ws : List (C × V)) :
    Ready entry (replay kind s ws) p := by
  obtain ⟨e, found, present⟩ := ready
  exact ⟨e, found, fun c same => replay_present s ws c (present c same)⟩

/-- A log whose commands are all ready does its writes. -/
theorem performAll_ready (s : C → Option V) (ps : List P) (ready : ∀ p ∈ ps, Ready entry s p) :
    performAll kind entry s ps = some (replay kind s (writesOf entry ps)) := by
  induction ps generalizing s with
  | nil => rfl
  | cons p ps ih =>
    have first : perform kind entry s p = some (replay kind s (writesOf entry [p])) :=
      (ready p List.mem_cons_self).perform
    rw [performAll_cons, first, Option.bind_some,
      ih _ fun q member => (ready q (List.mem_cons_of_mem _ member)).replay _, ← replay_append,
      ← writesOf_append, List.singleton_append]

/-- A log that is defined does its writes, and its commands are all ready where it ends. By
induction on the log: a cell that is there stays there. -/
theorem performAll_eq {s t : C → Option V} {ps : List P} (performed : performAll kind entry s ps = some t) :
    t = replay kind s (writesOf entry ps) ∧ ∀ p ∈ ps, Ready entry t p := by
  induction ps generalizing s with
  | nil => exact ⟨(Option.some.inj performed).symm, fun _ member => absurd member List.not_mem_nil⟩
  | cons p ps ih =>
    rw [performAll_cons] at performed
    obtain ⟨u, first, rest⟩ := Option.bind_eq_some_iff.mp performed
    obtain ⟨e, found, done, present⟩ := perform_eq first
    obtain ⟨same, ready⟩ := ih rest
    refine ⟨?_, fun q member => ?_⟩
    · rw [same, done, ← replay_append]
      refine congrArg (replay kind s) ?_
      rw [writesOf, writesOf, List.flatMap_cons, found]
      rfl
    · rcases List.mem_cons.mp member with rfl | later
      · refine ⟨e, found, fun c touched => ?_⟩
        rw [same, done]
        exact replay_present _ _ c (replay_present _ _ c (present c touched))
      · exact ready q later

/-- A log that is defined on a store is defined on one that holds more cells. By induction on
the log: it makes the same writes on both. -/
theorem performAll_wider {s s' t : C → Option V} {ps : List P} (wider : ∀ c, (s c).isSome → (s' c).isSome)
    (performed : performAll kind entry s ps = some t) :
    performAll kind entry s' ps = some (replay kind s' (writesOf entry ps)) := by
  induction ps generalizing s s' with
  | nil => rfl
  | cons p ps ih =>
    rw [performAll_cons] at performed
    obtain ⟨u, first, rest⟩ := Option.bind_eq_some_iff.mp performed
    obtain ⟨e, found, rfl, present⟩ := perform_eq first
    have ready : Ready entry s' p := ⟨e, found, fun c touched => wider c (present c touched)⟩
    have writes : writesOf entry [p] = e.writes := by
      rw [writesOf, List.flatMap_singleton, found]
      rfl
    have still : ∀ c, (replay kind s e.writes c).isSome → (replay kind s' e.writes c).isSome := by
      intro c
      rw [replay_isSome, replay_isSome]
      exact Or.imp_left (wider c)
    rw [performAll_cons, ready.perform, Option.bind_some, writes, ih still rest, ← replay_append, ← writes,
      ← writesOf_append, List.singleton_append]

/-- Performing a log again from where it has led changes nothing. -/
theorem performAll_again {s t : C → Option V} {ps : List P} (performed : performAll kind entry s ps = some t) :
    performAll kind entry t ps = some t := by
  obtain ⟨same, ready⟩ := performAll_eq performed
  rw [performAll_ready t ps ready, same, replay_again]

/-- A snapshot taken inside a log, and the log from a place before the snapshot on. -/
theorem performAll_overlap {s u t : C → Option V} {front both back : List P}
    (snapshot : performAll kind entry s (front ++ both) = some u)
    (later : performAll kind entry u back = some t) : performAll kind entry u (both ++ back) = some t := by
  obtain ⟨v, _, taken⟩ := performAll_split snapshot
  exact performAll_join (performAll_again taken) later

/-- The overlap in terms of positions in one history: the snapshot holds the first
`m` commands, the log is the history from `n` on. -/
theorem performAll_drop {s u t : C → Option V} {history : List P} {n m : Nat} (order : n ≤ m)
    (snapshot : performAll kind entry s (history.take m) = some u)
    (whole : performAll kind entry s history = some t) :
    performAll kind entry u (history.drop n) = some t := by
  have front : history.take m = history.take n ++ (history.drop n).take (m - n) := by
    rw [← List.take_add, Nat.add_sub_of_le order]
  have behind : (history.drop n).drop (m - n) = history.drop m := by
    rw [List.drop_drop, Nat.add_sub_of_le order]
  have later : performAll kind entry u (history.drop m) = some t := by
    rw [← List.take_append_drop m history] at whole
    obtain ⟨v, first, rest⟩ := performAll_split whole
    obtain rfl : u = v := Option.some.inj (snapshot.symm.trans first)
    exact rest
  rw [front] at snapshot
  have combined := performAll_overlap snapshot (behind ▸ later)
  rw [List.take_append_drop] at combined
  exact combined

end Naruto.Theory
