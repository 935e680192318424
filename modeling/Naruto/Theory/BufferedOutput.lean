import Mathlib.Data.List.Basic

/-!
# Output through a buffer

A stream keeps what is written to it in a buffer, and hands it on to its device when it
likes. How much it keeps behind a write is left to a function of what it has kept and what
is written, since a standard library says nothing about it. Whatever the function is,
nothing is reordered or lost while the device takes all, and what is in the file when the
stream is closed is the part of everything written that the device had room for. What is in
the file before that depends on the function, and so does whether a full device has been
noticed.
-/

namespace Naruto.Theory

variable {α : Type*}

/-- How many elements stay in the buffer behind a write: of those kept before it, and of
those written. -/
abbrev Keeping := Nat → Nat → Nat

namespace Keeping

/-- A buffer with room for `size` elements. What is smaller than `direct` and leaves room is
kept; any other write makes the stream hand on everything. -/
def ofSize (direct size : Nat) : Keeping := fun kept written =>
  if written < min direct (size - kept) then kept + written else 0

/-- A write: what is handed on, and what is kept. -/
def split (keeping : Keeping) (kept written : List α) : List α × List α :=
  let all := kept ++ written
  all.splitAt (all.length - keeping kept.length written.length)

/-- A write reorders and loses nothing. -/
theorem split_append (keeping : Keeping) (kept written : List α) :
    (keeping.split kept written).1 ++ (keeping.split kept written).2 = kept ++ written := by
  simp [split]

/-- What is kept behind some writes, when nothing was kept before them: the number of the
elements is a matter of the numbers written. -/
def behind (keeping : Keeping) (kept : Nat) : List Nat → Nat
  | [] => kept
  | written :: later => behind keeping (min (keeping kept written) (kept + written)) later

/-- The number of the elements kept by a write. -/
theorem split_length (keeping : Keeping) (kept written : List α) :
    (keeping.split kept written).2.length =
      min (keeping kept.length written.length) (kept.length + written.length) := by
  simp only [split, List.splitAt_eq, List.length_drop, List.length_append]
  omega

end Keeping

/-- A stream: what is in its file, what it keeps, how many elements the device still takes,
and whether it has failed. -/
structure Outlet (α : Type*) where
  file : List α
  kept : List α
  room : Nat
  failed : Bool
deriving DecidableEq, Repr

namespace Outlet

variable (keeping : Keeping)

/-- A stream on an empty file. -/
def opened (room : Nat) : Outlet α := ⟨[], [], room, false⟩

/-- A write: a stream that has failed takes nothing, and one fails when the device does not
take what it is handed. -/
def write (out : Outlet α) (written : List α) : Outlet α :=
  if out.failed then out
  else
    let parts := keeping.split out.kept written
    if parts.1.length ≤ out.room then ⟨out.file ++ parts.1, parts.2, out.room - parts.1.length, false⟩
    else ⟨out.file ++ parts.1.take out.room, out.kept, 0, true⟩

/-- The position of the stream, which counts what it keeps; none when it has failed. -/
def position (out : Outlet α) : Option Nat := if out.failed then none else some (out.file.length + out.kept.length)

/-- The file when the stream is closed: what it keeps is handed on as well. -/
def close (out : Outlet α) : List α := out.file ++ out.kept.take out.room

/-- What holds of a stream on which `all` was written, the device having had `room`: as long as
it has not failed, file and buffer have all of it; else the device is full, and has what it
had room for. -/
structure Holds (room : Nat) (all : List α) (out : Outlet α) : Prop where
  works : out.failed = false → out.file ++ out.kept = all ∧ out.file.length + out.room = room
  full : out.failed = true → out.file = all.take room ∧ out.room = 0 ∧ room < all.length

/-- It holds of a new stream. -/
theorem holds_opened (room : Nat) : Holds room ([] : List α) (opened room) :=
  ⟨fun _ => ⟨rfl, Nat.zero_add room⟩, fun fails => absurd fails Bool.false_ne_true⟩

/-- A write keeps it: split into what is handed on and what is kept, and whether the device has
room for the first. -/
theorem Holds.write {room : Nat} {all : List α} {out : Outlet α} (holds : Holds room all out) (written : List α) :
    Holds room (all ++ written) (out.write keeping written) := by
  cases failed : out.failed with
  | true =>
    obtain ⟨file, spent, more⟩ := holds.full failed
    rw [Outlet.write, if_pos failed]
    refine ⟨fun works => by simp [failed] at works, fun _ => ⟨?_, spent, ?_⟩⟩
    · rw [file, List.take_append_of_le_length (Nat.le_of_lt more)]
    · rw [List.length_append]
      omega
  | false =>
    obtain ⟨together, left⟩ := holds.works failed
    have parts := keeping.split_append out.kept written
    have whole : all ++ written = out.file ++ (keeping.split out.kept written).1 ++ (keeping.split out.kept written).2 := by
      rw [← together, List.append_assoc, ← parts, List.append_assoc]
    simp only [Outlet.write, failed, Bool.false_eq_true, ↓reduceIte]
    generalize keeping.split out.kept written = split at whole
    by_cases fits : split.1.length ≤ out.room
    · rw [if_pos fits]
      refine ⟨fun _ => ⟨whole.symm, ?_⟩, fun fails => absurd fails Bool.false_ne_true⟩
      simp only [List.length_append]
      omega
    · rw [if_neg fits]
      refine ⟨fun works => absurd works.symm Bool.false_ne_true, fun _ => ⟨?_, rfl, ?_⟩⟩
      · have taken : room = out.file.length + out.room := left.symm
        rw [whole, List.append_assoc, taken, List.take_length_add_append,
          List.take_append_of_le_length (Nat.le_of_lt (Nat.not_le.mp fits))]
      · rw [whole, List.length_append, List.length_append]
        omega

/-- Many writes keep it, by induction on them. -/
theorem Holds.writes {room : Nat} {all : List α} {out : Outlet α} (holds : Holds room all out)
    (chunks : List (List α)) : Holds room (all ++ chunks.flatten) (chunks.foldl (Outlet.write keeping) out) := by
  induction chunks generalizing all out with
  | nil => simpa using holds
  | cons chunk chunks ih =>
    have later := ih (holds.write keeping chunk)
    simpa using later

/-- The file of a closed stream has what the device had room for. -/
theorem Holds.close {room : Nat} {all : List α} {out : Outlet α} (holds : Holds room all out) :
    out.close = all.take room := by
  cases failed : out.failed with
  | true =>
    obtain ⟨file, spent, _⟩ := holds.full failed
    rw [Outlet.close, file, spent, List.take_zero, List.append_nil]
  | false =>
    obtain ⟨together, left⟩ := holds.works failed
    rw [Outlet.close, ← together, ← left, List.take_length_add_append]

/-- Its position is the number of all elements, when there is one. -/
theorem Holds.position {room : Nat} {all : List α} {out : Outlet α} (holds : Holds room all out) :
    out.position = if out.failed then none else some all.length := by
  cases failed : out.failed with
  | true => simp [Outlet.position, failed]
  | false => simp [Outlet.position, failed, ← (holds.works failed).1]

/-- A stream that keeps everything never fails, and has nothing in its file. By induction on
the writes. -/
theorem keeps_all (chunks : List (List α)) (out : Outlet α) (direct size : Nat) (works : out.failed = false)
    (small : chunks.flatten.length < direct) (fits : out.kept.length + chunks.flatten.length < size) :
    chunks.foldl (Outlet.write (Keeping.ofSize direct size)) out = { out with kept := out.kept ++ chunks.flatten } := by
  induction chunks generalizing out with
  | nil => simp
  | cons chunk chunks ih =>
    rw [List.flatten_cons, List.length_append] at small fits
    have first : (Keeping.ofSize direct size).split out.kept chunk = ([], out.kept ++ chunk) := by
      have all : Keeping.ofSize direct size out.kept.length chunk.length = (out.kept ++ chunk).length := by
        rw [List.length_append, Keeping.ofSize, if_pos (by omega)]
      simp [Keeping.split, all]
    have step : out.write (Keeping.ofSize direct size) chunk = { out with kept := out.kept ++ chunk } := by
      simp [Outlet.write, works, first]
    have room : (out.kept ++ chunk).length + chunks.flatten.length < size := by
      rw [List.length_append]
      omega
    rw [List.foldl_cons, step, ih { out with kept := out.kept ++ chunk } works (by omega) room]
    simp

end Outlet

end Naruto.Theory
