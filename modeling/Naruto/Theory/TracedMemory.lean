import Mathlib.Data.Nat.Find
import Mathlib.Logic.Function.Basic

/-!
# Traced memory

Cells under natural numbers, and the places that have been written so far. The cells are all that
there is behind a pointer, also what has not been allocated: whether a program writes only where it
may is read off the trace.
-/

namespace Naruto.Theory

universe u

/-- The contents of the cells, and the places that have been written, in order. -/
structure Traced (β : Type u) where
  cell : Nat → β
  written : List Nat

namespace Traced

variable {β : Type u}

/-- A write to a cell. -/
def write (m : Traced β) (place : Nat) (value : β) : Traced β :=
  ⟨Function.update m.cell place value, m.written ++ [place]⟩

/-- Values that are written from a place on. -/
def copy : Traced β → Nat → List β → Traced β
  | m, _, [] => m
  | m, place, value :: values => copy (m.write place value) (place + 1) values

/-- A loop that changes one cell after another in place: the number of its passes, and its counter,
which comes back with the memory. -/
def alter (f : Nat → β → β) : Nat → Nat → Traced β → Traced β × Nat
  | 0, counter, m => (m, counter)
  | passes + 1, counter, m => alter f passes (counter + 1) (m.write counter (f counter (m.cell counter)))

/-- From the one memory to the other, cells have been written only below a bound. -/
structure Below (bound : Nat) (m m' : Traced β) : Prop where
  kept : ∀ place, bound ≤ place → m'.cell place = m.cell place
  traced : ∀ place ∈ m'.written, place ∈ m.written ∨ place < bound

namespace Below

variable {bound : Nat} {m m' m'' : Traced β}

/-- Doing nothing stays below every bound. -/
theorem refl (m : Traced β) : Below bound m m := ⟨fun _ _ => rfl, fun _ member => Or.inl member⟩

/-- What stays below a bound step by step stays below it. -/
theorem trans (first : Below bound m m') (second : Below bound m' m'') : Below bound m m'' := by
  constructor
  · intro place outside
    exact (second.kept place outside).trans (first.kept place outside)
  · intro place member
    rcases second.traced place member with before | inside
    · exact first.traced place before
    · exact Or.inr inside

/-- A write below the bound, -/
theorem write (m : Traced β) {place : Nat} (value : β) (inside : place < bound) :
    Below bound m (m.write place value) := by
  constructor
  · intro other outside
    have elsewhere : other ≠ place := by omega
    exact Function.update_of_ne elsewhere value m.cell
  · intro other member
    rcases List.mem_append.mp member with before | here
    · exact Or.inl before
    · obtain rfl := List.mem_singleton.mp here
      exact Or.inr inside

/-- a copy that ends below it, -/
theorem copy (m : Traced β) {place : Nat} {values : List β} (inside : place + values.length ≤ bound) :
    Below bound m (m.copy place values) := by
  induction values generalizing m place with
  | nil => exact .refl m
  | cons value values ih =>
    rw [List.length_cons] at inside
    exact (Below.write m value (by omega)).trans (ih _ (by omega))

/-- and a pass over the places below it stay below it. -/
theorem alter (f : Nat → β → β) (m : Traced β) {passes counter : Nat} (inside : counter + passes ≤ bound) :
    Below bound m (alter f passes counter m).1 := by
  induction passes generalizing m counter with
  | zero => exact .refl m
  | succ passes ih => exact (Below.write m _ (by omega)).trans (ih _ (by omega))

end Below

/-- The counter behind a loop. -/
theorem alter_counter (f : Nat → β → β) (passes counter : Nat) (m : Traced β) :
    (alter f passes counter m).2 = counter + passes := by
  induction passes generalizing counter m with
  | zero => rfl
  | succ passes ih =>
    rw [alter, ih]
    omega

/-- The cells behind a loop: those that it has passed are changed, each once. By induction on
the passes. -/
theorem alter_cell (f : Nat → β → β) (passes counter : Nat) (m : Traced β) (place : Nat) :
    (alter f passes counter m).1.cell place =
      if counter ≤ place ∧ place < counter + passes then f place (m.cell place) else m.cell place := by
  induction passes generalizing counter m with
  | zero =>
    rw [alter, if_neg (by omega)]
  | succ passes ih =>
    rw [alter, ih]
    by_cases here : place = counter
    · subst here
      rw [if_neg (by omega), if_pos (by omega)]
      exact Function.update_self _ _ _
    · have same : (m.write counter (f counter (m.cell counter))).cell place = m.cell place :=
        Function.update_of_ne here _ _
      rw [same]
      refine if_congr ?_ rfl rfl
      omega

/-- What is read up to the first cell that contains a terminator. -/
def upTo [DecidableEq β] (terminator : β) (cell : Nat → β) (ends : ∃ place, cell place = terminator) : List β :=
  (List.range (Nat.find ends)).map cell

/-- The string up to a terminator has as many places as lie before the first terminator. -/
theorem upTo_eq [DecidableEq β] {terminator : β} {cell : Nat → β} (ends : ∃ place, cell place = terminator) {n : Nat}
    (last : cell n = terminator) (before : ∀ place < n, cell place ≠ terminator) :
    upTo terminator cell ends = (List.range n).map cell := by
  have first : Nat.find ends = n := (Nat.find_eq_iff ends).mpr ⟨last, before⟩
  rw [upTo, first]

end Traced

end Naruto.Theory
