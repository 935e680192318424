import Mathlib.Data.List.Basic
import Mathlib.Logic.Function.Basic

/-!
# Cells with a fixed kind

A store of cells in which the first value written to a cell fixes the kind of
the cell: a later write of the same kind replaces the value, one of another kind
is refused. Replaying writes a second time changes nothing, so a snapshot may be
combined with a log that overlaps it: what counts is that the log begins no
later than the snapshot was taken and ends no earlier.
-/

namespace Naruto.Theory

variable {C V K : Type*} [DecidableEq C] [DecidableEq K] (kind : V → K)

/-- A write to a cell: refused when the cell holds a value of another kind. -/
def assignCell : Option V → V → Option V
  | none, v => some v
  | some u, v => if kind v = kind u then some v else some u

/-- A cell accepts a value when it is empty or holds one of the same kind. -/
def Accepts : Option V → V → Prop
  | none, _ => True
  | some u, v => kind v = kind u

/-- Whether a cell accepts a value can be decided. -/
instance (cell : Option V) (v : V) : Decidable (Accepts kind cell v) :=
  match cell with
  | none => .isTrue trivial
  | some u => inferInstanceAs (Decidable (kind v = kind u))

/-- Several writes to one cell. -/
def replayCell (cell : Option V) (vs : List V) : Option V := vs.foldl (assignCell kind) cell

/-- A write to a store. -/
def assign (s : C → Option V) (w : C × V) : C → Option V := Function.update s w.1 (assignCell kind (s w.1) w.2)

/-- A list of writes, one after another. -/
def replay (s : C → Option V) (ws : List (C × V)) : C → Option V := ws.foldl (assign kind) s

/-- Every write of the list is accepted when its turn comes. -/
def Accepted (s : C → Option V) : List (C × V) → Prop
  | [] => True
  | w :: ws => Accepts kind (s w.1) w.2 ∧ Accepted (assign kind s w) ws

/-- The writes of the list that are accepted when their turn comes. -/
def successful (s : C → Option V) : List (C × V) → List (C × V)
  | [] => []
  | w :: ws =>
    if Accepts kind (s w.1) w.2 then w :: successful (assign kind s w) ws else successful s ws

variable {kind}

/-- An accepted value is what the cell holds afterwards. -/
theorem assignCell_accepts {cell : Option V} {v : V} (accepts : Accepts kind cell v) :
    assignCell kind cell v = some v := by
  cases cell with
  | none => rfl
  | some u => exact if_pos accepts

/-- A refused value leaves the cell as it was. -/
theorem assignCell_refuses {cell : Option V} {v : V} (refuses : ¬ Accepts kind cell v) :
    assignCell kind cell v = cell := by
  cases cell with
  | none => exact absurd trivial refuses
  | some u => exact if_neg refuses

/-- A cell that nothing is written to stays as it is. -/
@[simp] theorem replayCell_nil (cell : Option V) : replayCell kind cell [] = cell := rfl

/-- A cell's first write, and the others behind it. -/
@[simp] theorem replayCell_cons (cell : Option V) (v : V) (vs : List V) :
    replayCell kind cell (v :: vs) = replayCell kind (assignCell kind cell v) vs := rfl

/-- A cell's writes in two parts. -/
theorem replayCell_append (cell : Option V) (front back : List V) :
    replayCell kind cell (front ++ back) = replayCell kind (replayCell kind cell front) back :=
  List.foldl_append

/-- No writes leave the cells as they are. -/
@[simp] theorem replay_nil (s : C → Option V) : replay kind s [] = s := rfl

/-- The first write, and the others behind it. -/
@[simp] theorem replay_cons (s : C → Option V) (w : C × V) (ws : List (C × V)) :
    replay kind s (w :: ws) = replay kind (assign kind s w) ws := rfl

/-- Writes in two parts. -/
theorem replay_append (s : C → Option V) (front back : List (C × V)) :
    replay kind s (front ++ back) = replay kind (replay kind s front) back :=
  List.foldl_append

omit [DecidableEq K] in
/-- Values under a map that keeps their kind are accepted as before. -/
theorem accepts_map {W : Type*} {kind' : W → K} {f : V → W} (same : ∀ v, kind' (f v) = kind v) (cell : Option V)
    (v : V) : Accepts kind' (cell.map f) (f v) ↔ Accepts kind cell v := by
  cases cell with
  | none => exact Iff.rfl
  | some u => simp only [Option.map_some, Accepts, same]

/-- An assignment under a map that keeps the kinds. It compares the same kinds on both sides. -/
theorem assign_map {W : Type*} {kind' : W → K} {f : V → W} (same : ∀ v, kind' (f v) = kind v) (s : C → Option V)
    (c : C) (v : V) :
    assign kind' (fun c => (s c).map f) (c, f v) = fun c' => (assign kind s (c, v) c').map f := by
  funext c'
  rw [assign, assign]
  by_cases here : c' = c
  · subst here
    rw [Function.update_self, Function.update_self]
    cases s c' with
    | none => rfl
    | some u =>
      rw [Option.map_some, assignCell, assignCell, same, same]
      by_cases equal : kind v = kind u
      · rw [if_pos equal, if_pos equal]
        rfl
      · rw [if_neg equal, if_neg equal]
        rfl
  · rw [Function.update_of_ne here, Function.update_of_ne here]

/-- The values that a list writes to a cell. -/
def writesTo (c : C) (ws : List (C × V)) : List V := (ws.filter fun w => w.1 = c).map Prod.snd

/-- What is written to a cell in two parts. -/
theorem writesTo_append (c : C) (front back : List (C × V)) :
    writesTo c (front ++ back) = writesTo c front ++ writesTo c back := by
  rw [writesTo, List.filter_append, List.map_append]
  rfl

/-- A write goes to its own cell, -/
theorem writesTo_cons_self (w : C × V) (ws : List (C × V)) :
    writesTo w.1 (w :: ws) = w.2 :: writesTo w.1 ws := by
  rw [writesTo, List.filter_cons_of_pos (by simp), List.map_cons]
  rfl

/-- and to no other one. -/
theorem writesTo_cons_of_ne {c : C} (w : C × V) (ws : List (C × V)) (other : w.1 ≠ c) :
    writesTo c (w :: ws) = writesTo c ws := by
  rw [writesTo, List.filter_cons_of_neg (by simpa using other)]
  rfl

/-- A cell sees only its own writes. -/
theorem replay_cell (s : C → Option V) (ws : List (C × V)) (c : C) :
    replay kind s ws c = replayCell kind (s c) (writesTo c ws) := by
  induction ws generalizing s with
  | nil => rfl
  | cons w ws ih =>
    rw [replay_cons, ih, assign]
    by_cases here : w.1 = c
    · subst here
      rw [Function.update_self, writesTo_cons_self, replayCell_cons]
    · rw [Function.update_of_ne (Ne.symm here), writesTo_cons_of_ne w ws here]

/-- A cell that holds a value keeps its kind; its value is the last one written of
that kind. -/
theorem replayCell_some (u : V) (vs : List V) :
    replayCell kind (some u) vs = some ((vs.filter fun v => kind v = kind u).getLast?.getD u) := by
  induction vs generalizing u with
  | nil => rfl
  | cons v vs ih =>
    rw [replayCell_cons, assignCell]
    by_cases same : kind v = kind u
    · rw [if_pos same, ih, List.filter_cons_of_pos (by simpa using same), List.getLast?_cons]
      simp only [same, Option.getD_some]
    · rw [if_neg same, ih, List.filter_cons_of_neg (by simpa using same)]

/-- Writing the same values again changes nothing: the first of them that counted
fixed the kind, and the last of that kind is already there. -/
theorem replayCell_again (cell : Option V) (vs : List V) :
    replayCell kind (replayCell kind cell vs) vs = replayCell kind cell vs := by
  have settled : ∀ (u : V) (vs : List V), replayCell kind (replayCell kind (some u) vs) vs =
      replayCell kind (some u) vs := by
    intro u vs
    rw [replayCell_some]
    cases last : (vs.filter fun v => kind v = kind u).getLast? with
    | none => rw [Option.getD_none, replayCell_some, last, Option.getD_none]
    | some w =>
      have kept : kind w = kind u := by
        have member := List.mem_of_getLast? last
        simpa using (List.mem_filter.mp member).2
      rw [Option.getD_some, replayCell_some, kept, last, Option.getD_some]
  cases cell with
  | some u => exact settled u vs
  | none =>
    cases vs with
    | nil => rfl
    | cons v vs =>
      have first : replayCell kind none (v :: vs) = replayCell kind (some v) (v :: vs) := by
        rw [replayCell_cons, replayCell_cons, assignCell, assignCell, if_pos rfl]
      rw [first, settled]

/-- Replaying a list of writes on the store it has led to changes nothing. -/
theorem replay_again (s : C → Option V) (ws : List (C × V)) :
    replay kind (replay kind s ws) ws = replay kind s ws := by
  funext c
  rw [replay_cell, replay_cell, replayCell_again]

/-- The parts of a list of accepted writes are accepted in turn. -/
theorem accepted_append (s : C → Option V) (front back : List (C × V)) :
    Accepted kind s (front ++ back) ↔ Accepted kind s front ∧ Accepted kind (replay kind s front) back := by
  induction front generalizing s with
  | nil => simp [Accepted]
  | cons w front ih => rw [List.cons_append, Accepted, Accepted, ih, replay_cons, and_assoc]

/-- A cell that is written to is the cell of one of the writes. -/
theorem mem_writesTo {c : C} {ws : List (C × V)} (written : writesTo c ws ≠ []) : ∃ w ∈ ws, w.1 = c := by
  obtain ⟨v, member⟩ := List.exists_mem_of_ne_nil _ written
  obtain ⟨w, there, _⟩ := List.mem_map.mp member
  obtain ⟨listed, same⟩ := List.mem_filter.mp there
  exact ⟨w, listed, by simpa using same⟩

/-- A cell that is none of the writes' is not written to. -/
theorem writesTo_eq_nil {c : C} {ws : List (C × V)} (elsewhere : ∀ w ∈ ws, w.1 ≠ c) : writesTo c ws = [] := by
  by_contra written
  obtain ⟨w, listed, same⟩ := mem_writesTo written
  exact elsewhere w listed same

/-- When every write is accepted, a cell holds the last value written to it. -/
theorem Accepted.replay_cell {s : C → Option V} {ws : List (C × V)} (accepted : Accepted kind s ws) (c : C) :
    replay kind s ws c = (writesTo c ws).getLast?.or (s c) := by
  induction ws generalizing s with
  | nil => rfl
  | cons w ws ih =>
    obtain ⟨first, rest⟩ := accepted
    rw [replay_cons, ih rest, assign]
    by_cases here : w.1 = c
    · subst here
      rw [Function.update_self, assignCell_accepts first, writesTo_cons_self, List.getLast?_cons]
      cases (writesTo w.1 ws).getLast? <;> rfl
    · rw [Function.update_of_ne (Ne.symm here), writesTo_cons_of_ne w ws here]

/-- A refused write leaves the store as it was. -/
theorem assign_refused {s : C → Option V} {w : C × V} (refuses : ¬ Accepts kind (s w.1) w.2) : assign kind s w = s := by
  rw [assign, assignCell_refuses refuses]
  exact Function.update_eq_self w.1 s

/-- The successful writes alone are accepted one after another. -/
theorem accepted_successful (s : C → Option V) (ws : List (C × V)) : Accepted kind s (successful kind s ws) := by
  induction ws generalizing s with
  | nil => trivial
  | cons w ws ih =>
    by_cases accepts : Accepts kind (s w.1) w.2
    · rw [successful, if_pos accepts]
      exact ⟨accepts, ih _⟩
    · rw [successful, if_neg accepts]
      exact ih s

/-- The successful writes alone lead to the same store. -/
theorem replay_successful (s : C → Option V) (ws : List (C × V)) :
    replay kind s (successful kind s ws) = replay kind s ws := by
  induction ws generalizing s with
  | nil => rfl
  | cons w ws ih =>
    by_cases accepts : Accepts kind (s w.1) w.2
    · rw [successful, if_pos accepts, replay_cons, replay_cons, ih]
    · rw [successful, if_neg accepts, replay_cons, assign_refused accepts, ih]

/-- A cell holds the last value successfully written to it. -/
theorem replay_last (s : C → Option V) (ws : List (C × V)) (c : C) :
    replay kind s ws c = (writesTo c (successful kind s ws)).getLast?.or (s c) := by
  rw [← replay_successful, (accepted_successful s ws).replay_cell]

/-- Writes to a cell that holds a value keep its kind. -/
theorem replayCell_kind (u : V) (vs : List V) : ∃ v, replayCell kind (some u) vs = some v ∧ kind v = kind u := by
  rw [replayCell_some]
  refine ⟨_, rfl, ?_⟩
  cases last : (vs.filter fun v => kind v = kind u).getLast? with
  | none => rfl
  | some v =>
    have member := List.mem_of_getLast? last
    simpa using (List.mem_filter.mp member).2

/-- A cell that holds a value keeps its kind. -/
theorem replay_kind {s : C → Option V} {c : C} {u : V} (holds : s c = some u) (ws : List (C × V)) :
    ∃ v, replay kind s ws c = some v ∧ kind v = kind u := by
  rw [Theory.replay_cell, holds]
  exact replayCell_kind u (writesTo c ws)

/-- A cell holds something after writes when it did before or one of them is to it. -/
theorem replay_isSome (s : C → Option V) (ws : List (C × V)) (c : C) :
    (replay kind s ws c).isSome ↔ (s c).isSome ∨ writesTo c ws ≠ [] := by
  have settled : ∀ (u : V) (vs : List V), (replayCell kind (some u) vs).isSome := by
    intro u vs
    rw [replayCell_some]
    rfl
  rw [Theory.replay_cell]
  cases s c with
  | some u => simp [settled u (writesTo c ws)]
  | none =>
    cases writesTo c ws with
    | nil => simp
    | cons v vs => simp [assignCell, settled v vs]

/-- What a store held before makes no difference to writes exactly when every cell it held is
written to, by a first value of its kind. Such a cell ends with what the writes make of an
empty one, since the first of them is accepted in both. -/
theorem replay_forgets (s : C → Option V) (ws : List (C × V)) :
    replay kind s ws = replay kind (fun _ => none) ws ↔
      ∀ c u, s c = some u → ∃ v, replay kind (fun _ => none) ws c = some v ∧ kind v = kind u := by
  constructor
  · intro same c u holds
    rw [← same]
    exact replay_kind holds ws
  · intro kinds
    funext c
    cases held : s c with
    | none => rw [Theory.replay_cell, Theory.replay_cell, held]
    | some u =>
      obtain ⟨v, written, same⟩ := kinds c u held
      rw [Theory.replay_cell] at written
      rw [Theory.replay_cell, Theory.replay_cell, held]
      cases vs : writesTo c ws with
      | nil =>
        rw [vs] at written
        cases written
      | cons w vs' =>
        obtain ⟨v', last, first⟩ :=
          (replayCell_kind w vs' : ∃ v', replayCell kind (some w) vs' = some v' ∧ kind v' = kind w)
        rw [vs, replayCell_cons, assignCell, last] at written
        obtain rfl := Option.some.inj written
        rw [replayCell_cons, replayCell_cons, assignCell, assignCell, if_pos (first.symm.trans same)]

/-- After accepted writes the cells written to are of the kinds written. -/
theorem Accepted.kinds {s : C → Option V} {ws : List (C × V)} (accepted : Accepted kind s ws) :
    ∀ w ∈ ws, ∃ u, replay kind s ws w.1 = some u ∧ kind u = kind w.2 := by
  induction ws generalizing s with
  | nil => exact fun _ member => absurd member List.not_mem_nil
  | cons first ws ih =>
    obtain ⟨accepts, rest⟩ := accepted
    intro w member
    rcases List.mem_cons.mp member with rfl | later
    · have holds : assign kind s w w.1 = some w.2 := by
        rw [assign, Function.update_self, assignCell_accepts accepts]
      exact replay_kind holds ws
    · exact ih rest w later

/-- Writes to cells of their kinds are accepted. By induction on the writes: none of them
changes the kind of a cell. -/
theorem accepted_of_kinds {s : C → Option V} {ws : List (C × V)}
    (kinds : ∀ w ∈ ws, ∃ u, s w.1 = some u ∧ kind u = kind w.2) : Accepted kind s ws := by
  induction ws generalizing s with
  | nil => trivial
  | cons first ws ih =>
    constructor
    · obtain ⟨u, holds, same⟩ := kinds first List.mem_cons_self
      rw [holds]
      exact same.symm
    · apply ih
      intro w member
      obtain ⟨u, holds, same⟩ := kinds w (List.mem_cons_of_mem _ member)
      obtain ⟨v, holds', same'⟩ : ∃ v, replay kind s [first] w.1 = some v ∧ kind v = kind u :=
        replay_kind holds [first]
      exact ⟨v, holds', same'.trans same⟩

/-- Accepted writes are accepted again, whatever was accepted behind them. -/
theorem Accepted.again {s : C → Option V} {log more : List (C × V)} (accepted : Accepted kind s (log ++ more)) :
    Accepted kind (replay kind s (log ++ more)) log :=
  accepted_of_kinds fun w member => accepted.kinds w (List.mem_append_left more member)

/-- A log that overlaps the writes a store holds is accepted there, and leads where all
the writes lead: the overlap changes nothing, so what follows it finds the store it
followed the first time. -/
theorem Accepted.overlap {s : C → Option V} {front both back : List (C × V)}
    (accepted : Accepted kind s (front ++ both ++ back)) :
    Accepted kind (replay kind s (front ++ both)) (both ++ back) ∧
      replay kind (replay kind s (front ++ both)) (both ++ back) = replay kind s (front ++ both ++ back) := by
  obtain ⟨snapshot, later⟩ := (accepted_append s _ _).mp accepted
  have taken := ((accepted_append s _ _).mp snapshot).2
  have again : replay kind (replay kind s (front ++ both)) both = replay kind s (front ++ both) := by
    rw [replay_append, replay_again]
  constructor
  · refine (accepted_append _ _ _).mpr ⟨?_, by rw [again]; exact later⟩
    rw [replay_append]
    exact accepted_of_kinds taken.kinds
  · rw [replay_append, again, ← replay_append]

/-- A log replayed on a state that is ahead of it undoes the writes to its own cells
and keeps the others. When the others come first, that is a state in between. -/
theorem Accepted.replay_behind {s : C → Option V} {log front back : List (C × V)}
    (accepted : Accepted kind s (log ++ (front ++ back))) (apart : ∀ w ∈ front, ∀ l ∈ log, w.1 ≠ l.1)
    (within : ∀ w ∈ back, ∃ l ∈ log, l.1 = w.1) :
    replay kind (replay kind s (log ++ (front ++ back))) log = replay kind s (log ++ front) := by
  have before : Accepted kind s (log ++ front) := by
    rw [← List.append_assoc] at accepted
    exact ((accepted_append s (log ++ front) back).mp accepted).1
  funext c
  rw [accepted.again.replay_cell, accepted.replay_cell, before.replay_cell, writesTo_append, writesTo_append,
    writesTo_append]
  by_cases logged : writesTo c log = []
  · have outside : writesTo c back = [] := by
      apply writesTo_eq_nil
      intro w member same
      obtain ⟨l, listed, cell⟩ := within w member
      have member' : l.2 ∈ writesTo c log :=
        List.mem_map.mpr ⟨l, List.mem_filter.mpr ⟨listed, by simpa using cell.trans same⟩, rfl⟩
      rw [logged] at member'
      exact absurd member' List.not_mem_nil
    rw [logged, outside, List.append_nil]
    rfl
  · have untouched : writesTo c front = [] := by
      obtain ⟨l, listed, rfl⟩ := mem_writesTo logged
      exact writesTo_eq_nil fun w member same => apart w member l listed same
    have last := List.getLast?_eq_some_getLast logged
    rw [untouched, List.append_nil, last, Option.some_or, Option.some_or]

end Naruto.Theory
