import Mathlib.Data.Finset.Basic
import Mathlib.Logic.Function.Basic

/-!
# A table of cells with its keys

A cell is a key with a field. A value is put into a cell that is empty, changed where it
is, and taken away; a key is there from the first put under it until the whole table is
cleared, whether its cells are empty by then or not. So the keys of a table cover the
cells that hold something, and what they are after any operations is told by the puts
behind the last clear.
-/

namespace Naruto.Theory

/-- The keys and the cells, which hold nothing under other keys. -/
structure CellTable (K F V : Type*) where
  keys : Finset K
  cell : K → F → Option V
  inside : ∀ k f, cell k f ≠ none → k ∈ keys

namespace CellTable

variable {K F V : Type*}

/-- The operations on a table. -/
inductive Op (K F V : Type*)
  | put (k : K) (f : F) (v : V)
  | modify (k : K) (f : F) (change : V → V)
  | del (k : K) (f : F)
  | clear

/-- The operations put something under a key, and clear nothing afterwards. -/
def Puts (k : K) (ops : List (Op K F V)) : Prop :=
  ∃ front f v back, ops = front ++ .put k f v :: back ∧ ∀ op ∈ back, op ≠ .clear

/-- Nothing is put by no operations. -/
theorem not_puts_nil (k : K) : ¬ Puts k ([] : List (Op K F V)) := by
  rintro ⟨front, f, v, back, split, _⟩
  simp at split

/-- What one operation more puts. A `put` puts its key; a `clear` leaves none; any other
operation leaves them as they are. -/
theorem puts_snoc (k : K) (ops : List (Op K F V)) (op : Op K F V) :
    Puts k (ops ++ [op]) ↔ (∃ f v, op = .put k f v) ∨ (op ≠ .clear ∧ Puts k ops) := by
  constructor
  · rintro ⟨front, f, v, back, split, kept⟩
    rcases List.eq_nil_or_concat back with rfl | ⟨back, last, rfl⟩
    · obtain ⟨_, same⟩ := List.append_inj' split rfl
      exact .inl ⟨f, v, by simpa using same⟩
    · rw [List.concat_eq_append, ← List.cons_append, ← List.append_assoc] at split
      obtain ⟨same, here⟩ := List.append_inj' split rfl
      have last' : op = last := by simpa using here
      refine .inr ⟨last' ▸ kept last (by simp), front, f, v, back, same, fun op' among => kept op' ?_⟩
      simp [among]
  · rintro (⟨f, v, rfl⟩ | ⟨apart, front, f, v, back, rfl, kept⟩)
    · exact ⟨ops, f, v, [], rfl, by simp⟩
    · refine ⟨front, f, v, back ++ [op], by simp, fun op' among => ?_⟩
      rcases List.mem_append.mp among with early | late
      · exact kept op' early
      · rw [List.mem_singleton.mp late]
        exact apart

/-- A table without keys. -/
def empty : CellTable K F V := ⟨∅, fun _ _ => none, fun _ _ filled => absurd rfl filled⟩

variable [DecidableEq K] [DecidableEq F]

/-- A table with another value in one of its cells, whose key is there. The condition is that a
filled cell belongs to a key of the table. -/
def setCell (t : CellTable K F V) (k : K) (f : F) (v : Option V) (there : v ≠ none → k ∈ t.keys) :
    CellTable K F V where
  keys := t.keys
  cell := fun k' f' => if k' = k ∧ f' = f then v else t.cell k' f'
  inside := by
    intro k' f' filled
    by_cases here : k' = k ∧ f' = f
    · rw [if_pos here] at filled
      exact here.1 ▸ there filled
    · rw [if_neg here] at filled
      exact t.inside k' f' filled

/-- A table with a key more. -/
def addKey (t : CellTable K F V) (k : K) : CellTable K F V :=
  ⟨insert k t.keys, t.cell, fun k' f' filled => Finset.mem_insert_of_mem (t.inside k' f' filled)⟩

/-- One operation. -/
def step (t : CellTable K F V) : Op K F V → CellTable K F V
  | .put k f v => (t.addKey k).setCell k f ((t.cell k f).or (some v)) fun _ => Finset.mem_insert_self k t.keys
  | .modify k f change =>
    t.setCell k f ((t.cell k f).map change) fun filled => t.inside k f fun absent => filled (by rw [absent]; rfl)
  | .del k f => t.setCell k f none fun filled => absurd rfl filled
  | .clear => empty

/-- Operations one after another. -/
def run (t : CellTable K F V) (ops : List (Op K F V)) : CellTable K F V := ops.foldl step t

/-- A put fills an empty cell, and only it, -/
@[simp] theorem cell_step_put (t : CellTable K F V) (k : K) (f : F) (v : V) (k' : K) (f' : F) :
    (t.step (.put k f v)).cell k' f' = if k' = k ∧ f' = f then (t.cell k f).or (some v) else t.cell k' f' := rfl

/-- a change goes to the content of its cell, -/
@[simp] theorem cell_step_modify (t : CellTable K F V) (k : K) (f : F) (change : V → V) (k' : K) (f' : F) :
    (t.step (.modify k f change)).cell k' f' =
      if k' = k ∧ f' = f then (t.cell k f).map change else t.cell k' f' := rfl

/-- a deletion empties its cell, -/
@[simp] theorem cell_step_del (t : CellTable K F V) (k : K) (f : F) (k' : K) (f' : F) :
    (t.step (.del k f)).cell k' f' = if k' = k ∧ f' = f then none else t.cell k' f' := rfl

/-- and a clearing empties all. -/
@[simp] theorem cell_step_clear (t : CellTable K F V) (k' : K) (f' : F) : (t.step .clear).cell k' f' = none := rfl

/-- A put adds its key, -/
@[simp] theorem keys_step_put (t : CellTable K F V) (k : K) (f : F) (v : V) :
    (t.step (.put k f v)).keys = insert k t.keys := rfl

/-- a change adds none, -/
@[simp] theorem keys_step_modify (t : CellTable K F V) (k : K) (f : F) (change : V → V) :
    (t.step (.modify k f change)).keys = t.keys := rfl

/-- a deletion removes none, -/
@[simp] theorem keys_step_del (t : CellTable K F V) (k : K) (f : F) : (t.step (.del k f)).keys = t.keys := rfl

/-- and a clearing removes all. -/
@[simp] theorem keys_step_clear (t : CellTable K F V) : (t.step .clear).keys = ∅ := rfl

/-- The last operation of a run, split off. -/
theorem run_snoc (t : CellTable K F V) (ops : List (Op K F V)) (op : Op K F V) :
    t.run (ops ++ [op]) = (t.run ops).step op := by
  simp [run]

/-- The keys of a table after any operations, by induction on them: those with a put behind
the last clear. -/
theorem mem_keys_run (ops : List (Op K F V)) (k : K) : k ∈ (empty.run ops).keys ↔ Puts k ops := by
  induction ops using List.reverseRecOn with
  | nil => simp [run, empty, not_puts_nil]
  | append_singleton ops op ih =>
    rw [run_snoc, puts_snoc]
    cases op with
    | put k' f v => simp [ih, eq_comm]
    | modify k' f change => simp [ih]
    | del k' f => simp [ih]
    | clear => simp

end CellTable

end Naruto.Theory
