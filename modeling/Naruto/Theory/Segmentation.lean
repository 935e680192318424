import Mathlib.Algebra.Ring.Nat
import Naruto.Theory.SegmentedLog

/-!
# Filling segments up to a size

Entries with a weight are put into segments one after another. When an entry comes and the
open segment has reached the size, that segment is closed and the entry opens the next
one. So every closed segment has reached the size, and had not before its last entry; and
a segment exactly of that size stays open until another entry comes.

Entries that are lists themselves can be joined, segment by segment. The place at the end
of what is there then has behind it what is put in later, wherever the segments end.
-/

namespace Naruto.Theory

variable {α : Type*}

/-- The segments that are closed, and the open one. -/
structure Filling (α : Type*) where
  closed : List (List α)
  current : List α

namespace Filling

/-- All segments. -/
def segments (filling : Filling α) : List (List α) := filling.closed ++ [filling.current]

/-- Before there are entries. -/
def empty : Filling α := ⟨[], []⟩

variable (weight : α → Nat) (size : Nat)

/-- The weight of a segment. -/
def total (segment : List α) : Nat := (segment.map weight).sum

/-- One more entry. -/
def put (filling : Filling α) (x : α) : Filling α :=
  if size ≤ total weight filling.current then ⟨filling.closed ++ [filling.current], [x]⟩
  else ⟨filling.closed, filling.current ++ [x]⟩

/-- All entries. -/
def fill (xs : List α) : Filling α := xs.foldl (put weight size) empty

/-- A segment that was below the size before its last entry. -/
def Last (segment : List α) : Prop := ∃ before x, segment = before ++ [x] ∧ total weight before < size

/-- What holds of a filling with these entries. -/
structure Sound (filling : Filling α) (xs : List α) : Prop where
  entries : filling.segments.flatten = xs
  closed : ∀ segment ∈ filling.closed, size ≤ total weight segment ∧ Last weight size segment
  current : filling.current = [] ∨ Last weight size filling.current

variable {weight size}

/-- Filling with one more record is a put behind the others. -/
theorem fill_snoc (xs : List α) (x : α) : fill weight size (xs ++ [x]) = (fill weight size xs).put weight size x := by
  rw [fill, List.foldl_concat]
  rfl

/-- An entry extends the open segment or opens the next one. -/
theorem put_grows (filling : Filling α) (x : α) : Grows filling.segments [x] (filling.put weight size x).segments := by
  rw [put]
  split
  · exact Grows.rotate filling.segments [x]
  · exact Grows.extend filling.closed filling.current [x]

/-- An empty filling holds no records. -/
theorem Sound.empty : Sound weight size (empty : Filling α) [] :=
  ⟨rfl, fun _ member => absurd member List.not_mem_nil, Or.inl rfl⟩

/-- An entry keeps the filling sound: the open segment is closed only when it has reached
the size, and then it is not empty. -/
theorem Sound.put {filling : Filling α} {xs : List α} (sound : Sound weight size filling xs) (positive : 0 < size)
    (x : α) : Sound weight size (filling.put weight size x) (xs ++ [x]) := by
  have entries := (put_grows filling x : Grows _ _ (filling.put weight size x).segments).flatten
  rw [sound.entries] at entries
  rw [Filling.put] at entries ⊢
  split at entries
  · rename_i full
    rw [if_pos full]
    refine ⟨entries, fun segment member => ?_, Or.inr ⟨[], x, rfl, positive⟩⟩
    rcases List.mem_append.mp member with before | here
    · exact sound.closed segment before
    · obtain rfl := List.mem_singleton.mp here
      refine ⟨full, sound.current.resolve_left fun noneOpen => ?_⟩
      rw [noneOpen] at full
      exact absurd full (Nat.not_le.mpr positive)
  · rename_i room
    rw [if_neg room]
    exact ⟨entries, sound.closed, Or.inr ⟨filling.current, x, rfl, Nat.not_le.mp room⟩⟩

/-- So every filling is sound. -/
theorem fill_sound (positive : 0 < size) (xs : List α) : Sound weight size (fill weight size xs) xs := by
  induction xs using List.reverseRecOn with
  | nil => exact Sound.empty
  | append_singleton xs x ih =>
    rw [fill_snoc]
    exact ih.put positive x

/-- A segment with another one behind it is closed. -/
theorem mem_closed {filling : Filling α} {front back : List (List α)} {segment : List α}
    (split : filling.segments = front ++ segment :: back) (others : back ≠ []) : segment ∈ filling.closed := by
  obtain ⟨before, last, rfl⟩ := (List.eq_nil_or_concat' back).resolve_left others
  rw [segments, ← List.cons_append, ← List.append_assoc] at split
  rw [List.append_inj_left' split rfl]
  exact List.mem_append_right _ List.mem_cons_self

/-- Segments are only added. -/
theorem closed_le (xs ys : List α) :
    (fill weight size xs).closed.length ≤ (fill weight size (xs ++ ys)).closed.length := by
  induction ys using List.reverseRecOn with
  | nil => exact Nat.le_of_eq (by rw [List.append_nil])
  | append_singleton ys y ih =>
    rw [← List.append_assoc, fill_snoc, Filling.put]
    split
    · rw [List.length_append]
      exact Nat.le_add_right_of_le ih
    · exact ih

end Filling

/-- A log of lists grows when its entries are joined. -/
theorem Grows.join {segments segments' : List (List (List α))} {more : List (List α)}
    (grows : Grows segments more segments') :
    Grows (segments.map List.flatten) more.flatten (segments'.map List.flatten) := by
  cases grows with
  | extend before segment more =>
    rw [List.map_append, List.map_append, List.map_singleton, List.map_singleton, List.flatten_append]
    exact Grows.extend _ _ _
  | rotate segments more =>
    rw [List.map_append, List.map_singleton]
    exact Grows.rotate _ _

namespace Filling

variable {size : Nat}

/-- The segments of entries that are lists, each joined. -/
def joined (filling : Filling (List α)) : List (List α) := filling.segments.map List.flatten

/-- There is always an open segment. -/
theorem joined_ne_nil (filling : Filling (List α)) : filling.joined ≠ [] := by
  rw [joined, segments, List.map_append]
  exact List.concat_ne_nil _ _

/-- Behind the end of what was there lies what has been put in since. By induction on what has
been put in, from the last list: the segments only grow. -/
theorem joined_behind (xs ys : List (List α)) :
    (Place.last (fill List.length size xs).joined).Valid (fill List.length size (xs ++ ys)).joined ∧
      (Place.last (fill List.length size xs).joined).behind (fill List.length size (xs ++ ys)).joined = ys.flatten := by
  induction ys using List.reverseRecOn with
  | nil =>
    obtain ⟨valid, index⟩ := Place.last_valid _ (fill List.length size xs).joined_ne_nil
    rw [List.append_nil]
    refine ⟨valid, ?_⟩
    rw [Place.behind_eq_drop valid, index, List.drop_length, List.flatten_nil]
  | append_singleton ys y ih =>
    obtain ⟨valid, behind⟩ := ih
    have grows := ((fill List.length size (xs ++ ys)).put_grows y : Grows _ _ (put List.length size _ y).segments).join
    rw [← List.append_assoc, fill_snoc]
    refine ⟨(grows.place valid).1, ?_⟩
    have grown := grows.behind valid
    rw [List.flatten_singleton] at grown
    rw [List.flatten_append, List.flatten_singleton, ← behind]
    exact grown

end Filling

end Naruto.Theory
