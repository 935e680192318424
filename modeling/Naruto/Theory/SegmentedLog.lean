import Mathlib.Data.List.Basic
import Mathlib.Data.List.Induction

/-!
# Segmented logs

A log kept in segments grows by extending its last segment or by opening a new
one. A place in it is a segment and an offset inside that segment. A place keeps
its meaning while the log grows: the entries before it stay, and the entries
behind it are only extended. The end of one segment and the beginning of the
next are different places with the same entries before them.
-/

namespace Naruto.Theory

variable {α : Type*}

/-- A place in a segmented log: a segment and a number of its entries. -/
structure Place where
  segment : Nat
  offset : Nat
deriving DecidableEq, Repr

namespace Place

/-- The segment exists and has at least that many entries. -/
def Valid (segments : List (List α)) (place : Place) : Prop :=
  ∃ segment, segments[place.segment]? = some segment ∧ place.offset ≤ segment.length

/-- The number of entries before the place in the whole log. -/
def index (segments : List (List α)) (place : Place) : Nat :=
  (segments.take place.segment).flatten.length + place.offset

/-- The entries behind the place: the rest of its segment, then the later segments. -/
def behind (segments : List (List α)) (place : Place) : List α :=
  (segments.drop place.segment).flatten.drop place.offset

/-- The place behind the last entry. -/
def last (segments : List (List α)) : Place :=
  ⟨segments.length - 1, (segments.getLast?.getD []).length⟩

/-- A valid place splits the log. -/
theorem Valid.split {segments : List (List α)} {place : Place} (valid : place.Valid segments) :
    ∃ before segment after, segments = before ++ segment :: after ∧ before.length = place.segment ∧
      place.offset ≤ segment.length := by
  obtain ⟨segment, found, inside⟩ := valid
  have bound : place.segment < segments.length := (List.getElem?_eq_some_iff.mp found).1
  have here : segments[place.segment] = segment := (List.getElem?_eq_some_iff.mp found).2
  refine ⟨segments.take place.segment, segment, segments.drop (place.segment + 1), ?_, ?_, inside⟩
  · rw [← here, ← List.drop_eq_getElem_cons bound, List.take_append_drop]
  · exact List.length_take_of_le (Nat.le_of_lt bound)

/-- A split of the log makes a place valid. -/
theorem Valid.of_split (before after : List (List α)) (segment : List α) (offset : Nat)
    (inside : offset ≤ segment.length) :
    (⟨before.length, offset⟩ : Place).Valid (before ++ segment :: after) :=
  ⟨segment, by simp, inside⟩

/-- The index at a split. -/
theorem index_split (before after : List (List α)) (segment : List α) (offset : Nat) :
    index (before ++ segment :: after) ⟨before.length, offset⟩ = before.flatten.length + offset := by
  rw [index, List.take_left]

/-- What stands behind a valid place is the log without the entries before it. -/
theorem behind_eq_drop {segments : List (List α)} {place : Place} (valid : place.Valid segments) :
    behind segments place = segments.flatten.drop (index segments place) := by
  obtain ⟨before, segment, after, rfl, length, inside⟩ := valid.split
  rw [behind, index, ← length, List.drop_left, List.take_left, List.flatten_append, ← List.drop_drop,
    List.drop_left]

/-- A valid place lies within the log. -/
theorem Valid.index_le {segments : List (List α)} {place : Place} (valid : place.Valid segments) :
    index segments place ≤ segments.flatten.length := by
  obtain ⟨before, segment, after, rfl, length, inside⟩ := valid.split
  rw [index, ← length, List.take_left, List.flatten_append, List.flatten_cons, List.length_append,
    List.length_append]
  omega

/-- The last place of a log that has a segment. -/
theorem last_valid (segments : List (List α)) (opened : segments ≠ []) :
    (last segments).Valid segments ∧ index segments (last segments) = segments.flatten.length := by
  obtain ⟨before, segment, rfl⟩ := (List.eq_nil_or_concat' segments).resolve_left opened
  have place : last (before ++ [segment]) = ⟨before.length, segment.length⟩ := by
    simp [last]
  rw [place]
  refine ⟨Valid.of_split before [] segment _ (Nat.le_refl _), ?_⟩
  rw [index_split before [] segment, List.flatten_append, List.flatten_singleton, List.length_append]

/-- The end of a segment and the beginning of the next have the same index. -/
theorem index_next {segments : List (List α)} {segment : List α} {n : Nat}
    (found : segments[n]? = some segment) :
    index segments ⟨n + 1, 0⟩ = index segments ⟨n, segment.length⟩ := by
  have bound : n < segments.length := (List.getElem?_eq_some_iff.mp found).1
  have here : segments[n] = segment := (List.getElem?_eq_some_iff.mp found).2
  rw [index, index, List.take_add_one, List.getElem?_eq_getElem bound, here, Option.toList_some,
    List.flatten_append, List.flatten_singleton, List.length_append, Nat.add_zero]

end Place

/-- The log grows by entries: at the end of the last segment, or in a new segment. -/
inductive Grows : List (List α) → List α → List (List α) → Prop
  | extend (before : List (List α)) (segment more : List α) :
      Grows (before ++ [segment]) more (before ++ [segment ++ more])
  | rotate (segments : List (List α)) (more : List α) : Grows segments more (segments ++ [more])

namespace Grows

variable {segments segments' : List (List α)} {more : List α}

/-- The whole log is extended by the new entries. -/
theorem flatten (grows : Grows segments more segments') : segments'.flatten = segments.flatten ++ more := by
  cases grows with
  | extend before segment more =>
    rw [List.flatten_append, List.flatten_append, List.flatten_singleton, List.flatten_singleton,
      List.append_assoc]
  | rotate segments more => rw [List.flatten_append, List.flatten_singleton]

/-- A segment stays in its place and is at most extended, and the segments before
it stay as they are. -/
theorem segment (grows : Grows segments more segments') {n : Nat} {old : List α}
    (found : segments[n]? = some old) :
    (∃ added, segments'[n]? = some (old ++ added)) ∧ segments'.take n = segments.take n := by
  have bound : n < segments.length := (List.getElem?_eq_some_iff.mp found).1
  cases grows with
  | extend before final more =>
    rw [List.length_append, List.length_singleton] at bound
    constructor
    · by_cases inside : n < before.length
      · rw [List.getElem?_append_left inside] at found ⊢
        exact ⟨[], by rw [found, List.append_nil]⟩
      · obtain rfl : n = before.length := by omega
        rw [List.getElem?_concat_length] at found ⊢
        exact ⟨more, by rw [Option.some.inj found]⟩
    · rw [List.take_append_of_le_length (by omega), List.take_append_of_le_length (by omega)]
  | rotate segments more =>
    constructor
    · rw [List.getElem?_append_left bound]
      exact ⟨[], by rw [found, List.append_nil]⟩
    · rw [List.take_append_of_le_length (Nat.le_of_lt bound)]

/-- A valid place stays valid, with the same entries before it. -/
theorem place (grows : Grows segments more segments') {place : Place} (valid : place.Valid segments) :
    place.Valid segments' ∧ place.index segments' = place.index segments := by
  obtain ⟨segment, found, inside⟩ := valid
  obtain ⟨⟨added, found'⟩, before⟩ := grows.segment found
  refine ⟨⟨segment ++ added, found', ?_⟩, ?_⟩
  · rw [List.length_append]
    exact Nat.le_add_right_of_le inside
  · rw [Place.index, Place.index, before]

/-- What stands behind a valid place is extended by the new entries. -/
theorem behind (grows : Grows segments more segments') {place : Place} (valid : place.Valid segments) :
    place.behind segments' = place.behind segments ++ more := by
  obtain ⟨valid', index⟩ := grows.place valid
  rw [Place.behind_eq_drop valid', Place.behind_eq_drop valid, index, grows.flatten,
    List.drop_append_of_le_length valid.index_le]

end Grows

end Naruto.Theory
