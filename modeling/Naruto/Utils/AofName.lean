import Mathlib.Algebra.Ring.Nat
import Mathlib.Data.List.TakeWhile

/-!
# Names of AOF files

An AOF file is called `naruto.aof.` and a number, and the files follow one
another by that number. The number is read back with `std::stoi` from what
stands behind the last dot.
-/

namespace Naruto.Utils

/-- A directory: the contents of each file that can be opened. -/
abbrev Dir := String → Option (List UInt8)

namespace File

/-- `isspace` in the C locale. -/
def isspace (c : Char) : Bool := c ∈ [' ', '\t', '\n', '\x0b', '\x0c', '\r']

/-- The values of `int`. -/
def isInt (value : Int) : Bool := -2147483648 ≤ value ∧ value ≤ 2147483647

/-- `std::stoi`: leading blanks, a sign, digits; nothing for what makes it throw. -/
def stoi (s : List Char) : Option Int :=
  let s := s.dropWhile isspace
  let negative := s.head? = some '-'
  let s := if s.head? = some '-' ∨ s.head? = some '+' then s.tail else s
  let digits := s.takeWhile Char.isDigit
  let value : Int := if negative then -(Nat.ofDigitChars 10 digits 0 : Int) else Nat.ofDigitChars 10 digits 0
  if digits ≠ [] ∧ isInt value then some value else none

/-- `parseFileName`: the number behind the last dot, -1 without a dot. -/
def parseFileName (v : String) : Option Int :=
  if '.' ∈ v.toList then stoi (v.toList.reverse.takeWhile (· != '.')).reverse else some (-1)

/-- `RotateFileStream::_gen_aof_filename(idx)`. -/
def genAofFilename (idx : Nat) : String := "naruto.aof." ++ toString idx

/-- `nextAof`: the name with the next number, empty when there is no number.
Nothing when `std::stoi` throws or the next number is not an `int`. -/
def nextAof (aofname : String) : Option String := do
  let idx ← parseFileName aofname
  if idx = -1 then some ""
  else if isInt (idx + 1) then some ("naruto.aof." ++ toString (idx + 1)) else none

/-- `hasNextAof`: the next file's name when that file can be opened. -/
def hasNextAof (dir : Dir) (aofname : String) : Option (Option String) := do
  let next ← nextAof aofname
  if next = "" then some none
  else if (dir next).isSome then some (some next) else some none

/-- A natural number below two to the 31 is an `int`. -/
theorem isInt_nat (n : Nat) (bound : n < 2 ^ 31) : isInt (n : Int) = true := by
  rw [isInt, decide_eq_true_iff]
  omega

/-- The name of a file, as its characters: a prefix and the digits of the number. -/
theorem genAofFilename_toList (idx : Nat) :
    (genAofFilename idx).toList = "naruto.aof.".toList ++ Nat.toDigits 10 idx := by
  have digits : (toString idx).toList = Nat.toDigits 10 idx := Nat.toList_repr
  rw [genAofFilename, String.toList_append, digits]

/-- Different numbers have different names. -/
theorem genAofFilename_injective (i j : Nat) (same : genAofFilename i = genAofFilename j) : i = j := by
  have names := congrArg String.toList same
  rw [genAofFilename_toList, genAofFilename_toList] at names
  have digits := List.append_cancel_left names
  calc i = Nat.ofDigitChars 10 (Nat.toDigits 10 i) 0 := Nat.ofDigitChars_ten_toDigits.symm
    _ = Nat.ofDigitChars 10 (Nat.toDigits 10 j) 0 := by rw [digits]
    _ = j := Nat.ofDigitChars_ten_toDigits

/-- No file's name is empty, which is how the source says that there is none. -/
theorem genAofFilename_ne_empty (idx : Nat) : genAofFilename idx ≠ "" := by
  intro empty
  have names := congrArg String.toList empty
  rw [genAofFilename_toList] at names
  simp at names

/-- A decimal digit is neither blank nor a sign nor a dot. -/
theorem digit_plain (c : Char) (digit : c.isDigit = true) :
    isspace c = false ∧ c ≠ '-' ∧ c ≠ '+' ∧ (c != '.') = true := by
  have other : ∀ d : Char, d.isDigit = false → c ≠ d := by
    rintro d plain rfl
    rw [digit] at plain
    exact Bool.noConfusion plain
  refine ⟨?_, other '-' (by decide), other '+' (by decide), bne_iff_ne.mpr (other '.' (by decide))⟩
  rw [isspace, decide_eq_false_iff_not]
  intro blank
  simp only [List.mem_cons, List.not_mem_nil, or_false] at blank
  rcases blank with blank | blank | blank | blank | blank | blank
  all_goals exact other _ (by decide) blank

/-- `std::stoi` reads back the digits of a number that is an `int`. There is no blank and no
sign before them, and nothing behind. -/
theorem stoi_digits (n : Nat) (bound : n < 2 ^ 31) : stoi (Nat.toDigits 10 n) = some (n : Int) := by
  have digit : ∀ c ∈ Nat.toDigits 10 n, c.isDigit = true := fun c member =>
    Nat.isDigit_of_mem_toDigits (by decide) (by decide) member
  have value : Nat.ofDigitChars 10 (Nat.toDigits 10 n) 0 = n := Nat.ofDigitChars_ten_toDigits
  cases digits : Nat.toDigits 10 n with
  | nil => exact absurd digits Nat.toDigits_ne_nil
  | cons c cs =>
    rw [digits] at digit value
    obtain ⟨solid, notMinus, notPlus, _⟩ := digit_plain c (digit c List.mem_cons_self)
    have kept : (c :: cs).dropWhile isspace = c :: cs := by
      rw [List.dropWhile_cons, solid]
      rfl
    have all : (c :: cs).takeWhile Char.isDigit = c :: cs := List.takeWhile_eq_self_iff.mpr digit
    have inside : isInt (n : Int) = true := isInt_nat n bound
    have noMinus : ¬ some c = some '-' := fun same => notMinus (Option.some.inj same)
    have noPlus : ¬ some c = some '+' := fun same => notPlus (Option.some.inj same)
    simp only [stoi, kept, List.head?_cons, noMinus, noPlus, or_self, ↓reduceIte, all, value, inside, ne_eq,
      reduceCtorEq, not_false_eq_true, and_self]

/-- The number of an AOF file name. -/
theorem parseFileName_gen (n : Nat) (bound : n < 2 ^ 31) :
    parseFileName (genAofFilename n) = some (n : Int) := by
  have digit : ∀ c ∈ (Nat.toDigits 10 n).reverse, (c != '.') = true := fun c member =>
    (digit_plain c (Nat.isDigit_of_mem_toDigits (by decide) (by decide) (List.mem_reverse.mp member))).2.2.2
  have dotted : '.' ∈ (genAofFilename n).toList := by
    rw [genAofFilename_toList]
    exact List.mem_append_left _ (by decide)
  have front : "naruto.aof.".toList.reverse = '.' :: "foa.oturan".toList := by decide
  have behind : ((genAofFilename n).toList.reverse.takeWhile (· != '.')).reverse = Nat.toDigits 10 n := by
    rw [genAofFilename_toList, List.reverse_append, front, List.takeWhile_append_of_pos digit,
      List.takeWhile_cons_of_neg (by decide), List.append_nil, List.reverse_reverse]
  rw [parseFileName, if_pos dotted, behind, stoi_digits n bound]

/-- The next name, once the number has been read. -/
theorem nextAof_number (aofname : String) (idx : Int) (parsed : parseFileName aofname = some idx)
    (numbered : ¬ idx = -1) (next : isInt (idx + 1) = true) :
    nextAof aofname = some ("naruto.aof." ++ toString (idx + 1)) := by
  simp only [nextAof, parsed, Option.bind_eq_bind, Option.bind_some, numbered, next, ↓reduceIte]

/-- The next name of an AOF file. -/
theorem nextAof_gen (n : Nat) (bound : n + 1 < 2 ^ 31) :
    nextAof (genAofFilename n) = some (genAofFilename (n + 1)) := by
  have digits : toString ((n : Int) + 1) = toString (n + 1) := rfl
  rw [nextAof_number _ n (parseFileName_gen n (by omega)) (by omega) (isInt_nat (n + 1) bound), digits,
    genAofFilename]

/-- Behind an AOF file stands the file with the next number, if it is there. -/
theorem hasNextAof_gen (dir : Dir) (n : Nat) (bound : n + 1 < 2 ^ 31) :
    hasNextAof dir (genAofFilename n) =
      some (if (dir (genAofFilename (n + 1))).isSome then some (genAofFilename (n + 1)) else none) := by
  simp only [hasNextAof, nextAof_gen n bound, Option.bind_eq_bind, Option.bind_some,
    genAofFilename_ne_empty, ↓reduceIte]
  split <;> rfl

end File

end Naruto.Utils
