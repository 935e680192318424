import Mathlib.Data.List.Basic
import Naruto.Theory.Runs

/-!
# The list object

`listBase` keeps its elements in a vector. `lpop` reads the place behind the last element.
The loop of `ltrim` compares an iterator with itself and the length to be removed, so that
it does not end inside the vector. `lrange` reserves room for a difference that can be
negative. It is a `const` member that locks a mutex which is not `mutable`, so a program
that calls it compiles with `-fpermissive` only, which the build does not set. A list is a
finite sequence exactly in the calls that do none of this.
-/

namespace Naruto.Database

open Naruto.Theory

variable {T : Type*}

/-- How a call ends. An access outside the vector has no defined outcome, and a call that
is ill-formed is in no program. -/
inductive ListCall (α : Type*)
  | illFormed
  | returned (result : α)
  | badArg (errmsg : String)
  | lengthError
  | undefined
deriving DecidableEq

/-- The largest `int`. -/
def intMax : Int := 2147483647

namespace ListBase

/-- `lpop`: the element behind the last one is read. -/
def lpop (data : List T) : ListCall (T × List T) :=
  match data[data.length]? with
  | some v => .returned (v, data.dropLast)
  | none => .undefined

/-- `lpush`. -/
def lpush (data : List T) (v : T) : List T := data ++ [v]

/-- The indices as both range operations clip them. -/
def clip (data : List T) (start stop : Int) : Int × Int :=
  if (data.length : Int) < stop then (if start = stop then data.length else start, data.length) else (start, stop)

/-- The loop of `ltrim`: `it < it + end` asks whether the end is positive. -/
def trimLoop (data : List T) (it : Nat) (stop : Int) : ListCall (List T) :=
  if 0 < stop then
    if it < data.length then trimLoop (data.eraseIdx it) (it + 1) stop else .undefined
  else .returned data
termination_by data.length - it
decreasing_by
  rw [List.length_eraseIdx]
  split <;> omega

/-- `ltrim`. -/
def ltrim (data : List T) (start stop : Int) : ListCall (List T) :=
  if data.length = 0 then .returned data
  else if stop < start ∨ start < 0 ∨ stop < 0 then .badArg "ltrim index end must great start"
  else trimLoop data (clip data start stop).1.toNat (clip data start stop).2

/-- The loop of `lrange`. -/
def rangeLoop (data : List T) (i stop : Nat) (reply : List T) : ListCall (List T) :=
  if i < stop then
    match data[i]? with
    | some v => rangeLoop data (i + 1) stop (reply ++ [v])
    | none => .undefined
  else .returned reply
termination_by stop - i

/-- `lrange`. Being `const` it has a `const` mutex, which only a permissive compiler lets it
lock. The difference is an `int` and is converted to `size_t`: a negative one is more than a
vector can reserve. -/
def lrange (permissive : Bool) (data : List T) (start stop : Int) : ListCall (List T) :=
  if permissive = false then .illFormed
  else if data.length = 0 then .returned []
  else if stop < start ∨ start < 0 ∨ stop < 0 then .badArg "lrange index end must great start"
  else
    let range := clip data start stop
    let room := range.2 - range.1 + 1
    if intMax < room then .undefined
    else if room < 0 then .lengthError
    else rangeLoop data range.1.toNat range.2.toNat []

end ListBase

/-- The calls on a list. -/
inductive ListOp (T : Type*)
  | lpush (v : T)
  | lpop
  | ltrim (start stop : Int)
  | lrange (start stop : Int)

/-- The elements at the positions from `start` to `min stop length - 1`. -/
def elements (data : List T) (start stop : Nat) : List T := (data.take stop).drop start

/-- The sequence without them. -/
def without (data : List T) (start stop : Nat) : List T := data.take start ++ data.drop (max start stop)

/-- A call as the code does it: the elements it returns and the list afterwards. A call may be
undefined, may throw, or may not compile. -/
def ListOp.call (permissive : Bool) (data : List T) : ListOp T → ListCall (List T × List T)
  | .lpush v => .returned ([], ListBase.lpush data v)
  | .lpop =>
    match ListBase.lpop data with
    | .returned (v, data) => .returned ([v], data)
    | .illFormed => .illFormed
    | .badArg errmsg => .badArg errmsg
    | .lengthError => .lengthError
    | .undefined => .undefined
  | .ltrim start stop =>
    match ListBase.ltrim data start stop with
    | .returned data => .returned ([], data)
    | .illFormed => .illFormed
    | .badArg errmsg => .badArg errmsg
    | .lengthError => .lengthError
    | .undefined => .undefined
  | .lrange start stop =>
    match ListBase.lrange permissive data start stop with
    | .returned reply => .returned (reply, data)
    | .illFormed => .illFormed
    | .badArg errmsg => .badArg errmsg
    | .lengthError => .lengthError
    | .undefined => .undefined

/-- A call on a finite sequence. -/
def ListOp.spec (data : List T) : ListOp T → List T × List T
  | .lpush v => ([], data ++ [v])
  | .lpop => (data.getLast?.toList, data.dropLast)
  | .ltrim start stop => ([], without data start.toNat stop.toNat)
  | .lrange start stop => (elements data start.toNat stop.toNat, data)

/-- A call that is allowed: `lpop` on a list with elements, and indices that are `int`s in
their order. -/
def ListOp.Legal (data : List T) : ListOp T → Prop
  | .lpush _ => True
  | .lpop => data ≠ []
  | .ltrim start stop => 0 ≤ start ∧ start ≤ stop ∧ stop ≤ intMax
  | .lrange start stop => 0 ≤ start ∧ start ≤ stop ∧ stop ≤ intMax

/-- A call on which the code is right: a push; an `ltrim` on an empty list, or of nothing by
its end. With a permissive compiler also an `lrange` on an empty list, or one that does not
begin two or more places behind the end without being empty, nor runs over all `int`s. -/
def ListOp.Fits (permissive : Bool) (data : List T) : ListOp T → Prop
  | .lpush _ => True
  | .lpop => False
  | .ltrim _ stop => data.length = 0 ∨ stop = 0
  | .lrange start stop => permissive = true ∧ (data.length = 0 ∨
    ¬ ((data.length : Int) + 2 ≤ start ∧ start ≠ stop) ∧ ¬ (start = 0 ∧ stop = intMax ∧ intMax ≤ data.length))

/-- The sequence after a call. -/
def ListOp.next (data : List T) (op : ListOp T) : Option (List T) := some (op.spec data).2

/-- Whether a call fits can be decided. -/
instance (permissive : Bool) (data : List T) : (op : ListOp T) → Decidable (op.Fits permissive data)
  | .lpush _ => isTrue trivial
  | .lpop => isFalse not_false
  | .ltrim _ _ => inferInstanceAs (Decidable (_ ∨ _))
  | .lrange _ _ => inferInstanceAs (Decidable (_ ∧ (_ ∨ _)))

namespace ListBase

/-- With a positive end the loop of `ltrim` runs out of the vector. The induction is on the
loop: it erases elements until the iterator has none. -/
theorem trimLoop_undefined (data : List T) (it : Nat) {stop : Int} (positive : 0 < stop) :
    trimLoop data it stop = .undefined := by
  fun_induction trimLoop data it stop with
  | case1 data it _ inside ih => exact ih
  | case2 => rfl
  | case3 data it none => exact absurd positive none

/-- The loop of `lrange` inside the vector. By induction on its rounds: each appends the next
element. -/
theorem rangeLoop_eq (data : List T) (i stop : Nat) (reply : List T) (inside : stop ≤ data.length) :
    rangeLoop data i stop reply = .returned (reply ++ elements data i stop) := by
  fun_induction rangeLoop data i stop reply with
  | case1 i reply more v found ih =>
    obtain ⟨bound, rfl⟩ := List.getElem?_eq_some_iff.mp found
    have first : elements data i stop = data[i] :: elements data (i + 1) stop := by
      rw [elements, List.drop_eq_getElem_cons (by simp; omega), List.getElem_take]
      rfl
    rw [ih, first, List.append_assoc, List.singleton_append]
  | case2 i reply more missing =>
    rw [List.getElem?_eq_none_iff] at missing
    omega
  | case3 i reply done =>
    have nothing : elements data i stop = [] := by
      rw [elements, List.drop_eq_nil_iff, List.length_take]
      omega
    rw [nothing, List.append_nil]

/-- A pop reads outside the vector. -/
theorem lpop_undefined (data : List T) : lpop data = .undefined := by simp [lpop]

variable {data : List T} {start stop : Int}

/-- `ltrim` is right when it has nothing to do. Otherwise the clipped end is positive, and the
loop runs out of the vector. -/
theorem ltrim_eq_iff (first : 0 ≤ start) (ordered : start ≤ stop) :
    ltrim data start stop = .returned (without data start.toNat stop.toNat) ↔ data.length = 0 ∨ stop = 0 := by
  by_cases empty : data.length = 0
  · obtain rfl := List.length_eq_zero_iff.mp empty
    simp [ltrim, without]
  · have legal : ¬ (stop < start ∨ start < 0 ∨ stop < 0) := by omega
    rw [ltrim, if_neg empty, if_neg legal]
    by_cases zero : stop = 0
    · obtain rfl : start = 0 := by omega
      subst zero
      have nothing : ¬ ((data.length : Int) < 0) := by omega
      simp [clip, nothing, trimLoop, without]
    · have positive : 0 < (clip data start stop).2 := by
        rw [clip]
        split
        · exact Int.natCast_pos.mpr (Nat.pos_of_ne_zero empty)
        · dsimp only
          omega
      simp [trimLoop_undefined _ _ positive, empty, zero]

/-- What `lrange` reserves is no `int` for a list of so many elements only. -/
theorem room_overflows (first : 0 ≤ start) (bound : stop ≤ intMax) :
    intMax < (clip data start stop).2 - (clip data start stop).1 + 1 ↔
      start = 0 ∧ stop = intMax ∧ intMax ≤ data.length := by
  rw [clip]
  split
  · split <;> dsimp only <;> omega
  · dsimp only
    omega

/-- It is negative when the range begins two or more places behind the end. -/
theorem room_negative (ordered : start ≤ stop) :
    (clip data start stop).2 - (clip data start stop).1 + 1 < 0 ↔ (data.length : Int) + 2 ≤ start ∧ start ≠ stop := by
  rw [clip]
  split
  · split <;> dsimp only <;> omega
  · dsimp only
    omega

/-- The clipped range has the same elements. What is cut off lies behind the last one. -/
theorem elements_clip (first : 0 ≤ start) (ordered : start ≤ stop) :
    (clip data start stop).2.toNat ≤ data.length ∧
      elements data (clip data start stop).1.toNat (clip data start stop).2.toNat =
        elements data start.toNat stop.toNat := by
  rw [clip]
  split
  · rename_i beyond
    have all : data.take stop.toNat = data := List.take_of_length_le (by omega)
    refine ⟨by simp, ?_⟩
    rw [elements, elements, all]
    split
    · have behind : data.length ≤ start.toNat := by omega
      simp [List.drop_eq_nil_of_le behind]
    · simp
  · exact ⟨by dsimp only; omega, rfl⟩

/-- Without a permissive compiler no program has an `lrange` that returns. -/
theorem lrange_illFormed (data : List T) (start stop : Int) : lrange false data start stop = .illFormed := rfl

/-- With one `lrange` is right when what it reserves is not negative and is an `int`: the
loop then stays inside the clipped range, which has the elements of the range asked for. -/
theorem lrange_eq_iff (first : 0 ≤ start) (ordered : start ≤ stop) (bound : stop ≤ intMax) :
    lrange true data start stop = .returned (elements data start.toNat stop.toNat) ↔
      data.length = 0 ∨ ¬ ((data.length : Int) + 2 ≤ start ∧ start ≠ stop) ∧
        ¬ (start = 0 ∧ stop = intMax ∧ intMax ≤ data.length) := by
  by_cases empty : data.length = 0
  · obtain rfl := List.length_eq_zero_iff.mp empty
    simp [lrange, elements]
  · have legal : ¬ (stop < start ∨ start < 0 ∨ stop < 0) := by omega
    rw [lrange, if_neg (Bool.noConfusion : true ≠ false), if_neg empty, if_neg legal, ← room_overflows first bound,
      ← room_negative ordered]
    dsimp only
    split
    · rename_i overflows
      simp [empty, overflows]
    · split
      · rename_i negative
        simp [empty, negative]
      · rename_i fits positive
        obtain ⟨inside, same⟩ := @elements_clip _ data start stop first ordered
        rw [rangeLoop_eq _ _ _ _ inside, same]
        simp [fits, positive]

end ListBase

/-- A legal call is right exactly when it fits: one case for each operation. -/
theorem ListOp.call_eq_iff {permissive : Bool} {data : List T} {op : ListOp T} (legal : op.Legal data) :
    op.call permissive data = .returned (op.spec data) ↔ op.Fits permissive data := by
  cases op with
  | lpush v => exact ⟨fun _ => trivial, fun _ => rfl⟩
  | lpop => simp [call, ListBase.lpop_undefined, Fits]
  | ltrim start stop =>
    rw [Fits, ← ListBase.ltrim_eq_iff legal.1 legal.2.1, call, spec]
    cases ListBase.ltrim data start stop <;> simp
  | lrange start stop =>
    cases permissive with
    | false => simp [call, ListBase.lrange_illFormed, Fits]
    | true =>
      rw [Fits, ← ListBase.lrange_eq_iff legal.1 legal.2.1 legal.2.2, call, spec]
      cases ListBase.lrange true data start stop <;> simp

/-- In a run of legal calls the list is a finite sequence, with every call returning what the
sequence says, exactly when all the calls fit.

Proof: one call returns what it should exactly when it fits, case by case. By induction on the
calls: as long as they fit, the list and the sequence are the same, and the first that does
not fit returns something else. -/
theorem list_behaves_iff (permissive : Bool) (data : List T) (ops : List (ListOp T))
    (legal : Along ListOp.next (fun data op => op.Legal data) data ops) :
    Along ListOp.next (fun data op => op.call permissive data = .returned (op.spec data)) data ops ↔
      Along ListOp.next (fun data op => op.Fits permissive data) data ops := by
  induction ops generalizing data with
  | nil => exact Iff.rfl
  | cons op ops ih =>
    obtain ⟨allowed, later⟩ := legal
    exact and_congr (op.call_eq_iff allowed) (forall_congr' fun data' => imp_congr_right fun stepped =>
      ih data' (later data' stepped))

/-- Two pushes between trims, as the build compiles them. With a permissive compiler ranges
can be asked for, of which the last lies behind the end. -/
theorem list_behaves_pushes :
    Along ListOp.next (fun data op => op.call false data = .returned (op.spec data)) ([] : List Nat)
      [.ltrim 0 5, .lpush 7, .lpush 8, .ltrim 0 0] ∧
    Along ListOp.next (fun data op => op.call true data = .returned (op.spec data)) ([] : List Nat)
      [.lpush 7, .lpush 8, .lrange 0 5, .lrange 1 2, .ltrim 0 0, .lrange 3 9] :=
  ⟨(list_behaves_iff false [] [.ltrim 0 5, .lpush 7, .lpush 8, .ltrim 0 0] (by
    simp [Along, ListOp.next, ListOp.Legal, ListOp.spec, intMax])).mpr (by decide),
  (list_behaves_iff true [] [.lpush 7, .lpush 8, .lrange 0 5, .lrange 1 2, .ltrim 0 0, .lrange 3 9] (by
    simp [Along, ListOp.next, ListOp.Legal, ListOp.spec, intMax])).mpr (by decide)⟩

/-- A push and a pop. -/
theorem list_not_behaves : ¬ ∀ (data : List Nat) (ops : List (ListOp Nat)),
    Along ListOp.next (fun data op => op.Legal data) data ops →
    Along ListOp.next (fun data op => op.call false data = .returned (op.spec data)) data ops := by
  intro always
  have behaves := always [] [.lpush 7, .lpop] (by simp [Along, ListOp.next, ListOp.Legal, ListOp.spec])
  have popped := (behaves.2 _ rfl).1
  simp [ListOp.call, ListBase.lpop_undefined] at popped

end Naruto.Database
