import Mathlib.Data.List.Infix
import Mathlib.Data.List.Sort
import Naruto.Utils.AofName

/-!
# The AOF files of a directory

`listAof` reads a directory for regular files with `aof` in their names, reads the number
behind the last dot of each, and sorts the names by it. A name whose number is not one
makes `std::stoi` throw. The number -1 is taken for no number.
-/

namespace Naruto.Utils

/-- What `readdir` tells of an entry, and what is in it. `regular` is `d_type == DT_REG`. -/
structure DirEntry where
  name : String
  regular : Bool
  contents : List UInt8
deriving DecidableEq

namespace File

/-- `name.find("aof") != npos`. -/
def findsAof (name : String) : Bool := name.toList.tails.any ("aof".toList.isPrefixOf ·)

/-- Whether `listAof` takes the name of an entry, given the number of the name after which
it looks. Nothing when `std::stoi` throws. -/
def takesName (afterIdx : Int) (entry : DirEntry) : Option Bool :=
  if entry.regular = true ∧ findsAof entry.name = true then
    (parseFileName entry.name).map fun idx => idx ≠ -1 ∧ (afterIdx ≠ -1 → afterIdx ≤ idx)
  else some false

/-- The number that `std::sort` compares. -/
def aofIndex (name : String) : Int := (parseFileName name).getD (-1)

/-- `std::sort` by that number. Nothing is known about names with the same number. -/
structure NameSort where
  sort : List String → List String
  perm : ∀ names, (sort names).Perm names
  sorted : ∀ names, (sort names).Pairwise fun x y => aofIndex x ≤ aofIndex y

/-- Insertion sort, one of these sorts. -/
def NameSort.insertion : NameSort where
  sort names := names.insertionSort fun x y => aofIndex x ≤ aofIndex y
  perm names := List.perm_insertionSort _ names
  sorted names := by
    have total : Std.Total fun x y : String => aofIndex x ≤ aofIndex y := ⟨fun x y => Int.le_total _ _⟩
    have transitive : IsTrans String fun x y => aofIndex x ≤ aofIndex y := ⟨fun _ _ _ => Int.le_trans⟩
    exact List.pairwise_insertionSort _ names

/-- The loop over `readdir`. -/
def readAof (afterIdx : Int) : List DirEntry → Option (List String)
  | [] => some []
  | entry :: entries => do
    let takes ← takesName afterIdx entry
    let list ← readAof afterIdx entries
    some (if takes = true then entry.name :: list else list)

/-- `listAof`. -/
def listAof (sorting : NameSort) (dir : List DirEntry) (after : String) : Option (List String) := do
  let afterIdx ← if after = "" then some (-1) else parseFileName after
  let list ← readAof afterIdx dir
  some (sorting.sort list)

/-- The names that are listed. By induction on the entries, all of which are read. -/
theorem mem_readAof {afterIdx : Int} {dir : List DirEntry} {list : List String}
    (read : readAof afterIdx dir = some list) (name : String) :
    name ∈ list ↔ ∃ entry ∈ dir, entry.name = name ∧ takesName afterIdx entry = some true := by
  induction dir generalizing list with
  | nil =>
    obtain rfl := Option.some.inj read
    exact ⟨fun member => absurd member List.not_mem_nil, fun ⟨_, member, _⟩ => absurd member List.not_mem_nil⟩
  | cons entry dir ih =>
    obtain ⟨takes, decided, read⟩ := Option.bind_eq_some_iff.mp read
    obtain ⟨others, later, joined⟩ := Option.bind_eq_some_iff.mp read
    obtain rfl := Option.some.inj joined
    rw [List.exists_mem_cons_iff, decided, ← ih later]
    cases takes with
    | false => simp
    | true => simp [eq_comm]

/-- What `std::stoi` reads is an `int`. -/
theorem stoi_isInt {v : List Char} {value : Int} (read : stoi v = some value) : isInt value = true := by
  obtain ⟨⟨_, inside⟩, same⟩ := Option.ite_none_right_eq_some.mp read
  obtain rfl := Option.some.inj same
  exact inside

/-- A number that is read from a name is an `int`. -/
theorem parseFileName_isInt {v : String} {idx : Int} (parsed : parseFileName v = some idx) : isInt idx = true := by
  rw [parseFileName] at parsed
  split at parsed
  · exact stoi_isInt parsed
  · obtain rfl := Option.some.inj parsed
    rfl

/-- A listed name has its number. -/
theorem takesName_number {afterIdx : Int} {entry : DirEntry} (takes : takesName afterIdx entry = some true) :
    parseFileName entry.name = some (aofIndex entry.name) ∧ aofIndex entry.name ≠ -1 := by
  rw [takesName] at takes
  split at takes
  · obtain ⟨idx, parsed, taken⟩ := Option.map_eq_some_iff.mp takes
    have same : aofIndex entry.name = idx := by rw [aofIndex, parsed, Option.getD_some]
    rw [same]
    exact ⟨parsed, (of_decide_eq_true taken).1⟩
  · cases takes

/-- In a directory whose names can be read there is a list, with the names to be listed. Sorting
loses none of them. -/
theorem listAof_readable (sorting : NameSort) {dir : List DirEntry}
    (readable : ∀ entry ∈ dir, takesName (-1) entry ≠ none) :
    ∃ list, listAof sorting dir "" = some list ∧
      ∀ entry ∈ dir, takesName (-1) entry = some true → entry.name ∈ list := by
  have reads : ∃ names, readAof (-1) dir = some names := by
    induction dir with
    | nil => exact ⟨[], rfl⟩
    | cons entry dir ih =>
      obtain ⟨takes, decided⟩ := Option.ne_none_iff_exists'.mp (readable entry List.mem_cons_self)
      obtain ⟨names, read⟩ := ih fun other member => readable other (List.mem_cons_of_mem entry member)
      exact ⟨_, Option.bind_eq_some_iff.mpr ⟨takes, decided, Option.bind_eq_some_iff.mpr ⟨names, read, rfl⟩⟩⟩
  obtain ⟨names, read⟩ := reads
  refine ⟨sorting.sort names, ?_, fun entry member takes => ?_⟩
  · rw [listAof, if_pos rfl, Option.bind_eq_bind, Option.bind_some]
    exact Option.bind_eq_some_iff.mpr ⟨names, read, rfl⟩
  · exact (sorting.perm names).symm.subset ((mem_readAof read entry.name).mpr ⟨entry, member, rfl, takes⟩)

/-- Where there is a list, all names could be read. By induction on the entries: one that cannot
be read ends the loop. -/
theorem readable_of_listAof {sorting : NameSort} {dir : List DirEntry} {list : List String}
    (listed : listAof sorting dir "" = some list) : ∀ entry ∈ dir, takesName (-1) entry ≠ none := by
  rw [listAof, if_pos rfl, Option.bind_eq_bind, Option.bind_some] at listed
  obtain ⟨names, read, -⟩ := Option.bind_eq_some_iff.mp listed
  clear listed
  induction dir generalizing names with
  | nil => exact fun _ member => absurd member List.not_mem_nil
  | cons first dir ih =>
    obtain ⟨takes, decided, read⟩ := Option.bind_eq_some_iff.mp read
    obtain ⟨others, later, _⟩ := Option.bind_eq_some_iff.mp read
    intro entry member
    rcases List.mem_cons.mp member with rfl | behind
    · exact Option.ne_none_iff_exists'.mpr ⟨takes, decided⟩
    · exact ih others later entry behind

/-- The last name of the list: no listed name has a larger number. The list is sorted by number.
-/
theorem listAof_last {sorting : NameSort} {dir : List DirEntry} {list : List String}
    (listed : listAof sorting dir "" = some list) {last : String} (found : list.getLast? = some last) :
    (∃ entry ∈ dir, entry.name = last ∧ takesName (-1) entry = some true) ∧
      ∀ entry ∈ dir, takesName (-1) entry = some true → aofIndex entry.name ≤ aofIndex last := by
  rw [listAof, if_pos rfl] at listed
  rw [Option.bind_eq_bind, Option.bind_some] at listed
  obtain ⟨names, read, sorted⟩ := Option.bind_eq_some_iff.mp listed
  obtain rfl := Option.some.inj sorted
  obtain ⟨front, split⟩ := List.getLast?_eq_some_iff.mp found
  have order := sorting.sorted names
  have perm := sorting.perm names
  rw [split] at order perm
  constructor
  · exact (mem_readAof read last).mp (perm.subset (List.mem_append_right _ List.mem_cons_self))
  · intro entry member takes
    have listed := (mem_readAof read entry.name).mpr ⟨entry, member, rfl, takes⟩
    rcases List.mem_append.mp (perm.symm.subset listed) with before | here
    · exact (List.pairwise_append.mp order).2.2 _ before _ List.mem_cons_self
    · rw [List.mem_singleton.mp here]

/-- `RotateFileStream::_gen_aof_filename(idx)`, with any `int`. -/
def aofFilename (idx : Int) : String := "naruto.aof." ++ toString idx

/-- For a number that is not negative this is the name of `AofName`. -/
theorem aofFilename_nat (n : Nat) : aofFilename n = genAofFilename n := rfl

/-- The name of a file with a negative number has a minus sign before its digits. -/
theorem aofFilename_negSucc (n : Nat) :
    (aofFilename (Int.negSucc n)).toList = "naruto.aof.".toList ++ '-' :: Nat.toDigits 10 (n + 1) := by
  have digits : (toString (Int.negSucc n)).toList = '-' :: Nat.toDigits 10 (n + 1) := by
    have split : toString (Int.negSucc n) = "-" ++ Nat.repr (n + 1) := rfl
    rw [split, String.toList_append, Nat.toList_repr]
    rfl
  rw [aofFilename, String.toList_append, digits]

/-- `std::stoi` reads back a negative number. The minus sign stands before the digits, and
nothing behind them. -/
theorem stoi_minus (n : Nat) (bound : n ≤ 2 ^ 31) : stoi ('-' :: Nat.toDigits 10 n) = some (-(n : Int)) := by
  have digit : ∀ c ∈ Nat.toDigits 10 n, c.isDigit = true := fun c member =>
    Nat.isDigit_of_mem_toDigits (by decide) (by decide) member
  have value : Nat.ofDigitChars 10 (Nat.toDigits 10 n) 0 = n := Nat.ofDigitChars_ten_toDigits
  have all : (Nat.toDigits 10 n).takeWhile Char.isDigit = Nat.toDigits 10 n := List.takeWhile_eq_self_iff.mpr digit
  have kept : ('-' :: Nat.toDigits 10 n).dropWhile isspace = '-' :: Nat.toDigits 10 n := by
    rw [List.dropWhile_cons]
    rfl
  have inside : isInt (-(n : Int)) = true := by
    rw [isInt, decide_eq_true_iff]
    omega
  have digits : Nat.toDigits 10 n ≠ [] := Nat.toDigits_ne_nil
  simp only [stoi, kept, List.head?_cons, ↓reduceIte, true_or, List.tail_cons, all, value, inside, ne_eq, digits,
    not_false_eq_true, and_self]

/-- The number of a name. It stands behind the last dot, with a minus sign when it has wrapped.
-/
theorem parseFileName_aof (idx : Int) (bound : isInt idx = true) : parseFileName (aofFilename idx) = some idx := by
  have range := of_decide_eq_true bound
  cases idx with
  | ofNat n =>
    have upper : (n : Int) ≤ 2147483647 := range.2
    exact parseFileName_gen n (by omega)
  | negSucc n =>
    have plain : ∀ c ∈ ('-' :: Nat.toDigits 10 (n + 1)).reverse, (c != '.') = true := by
      intro c member
      rcases List.mem_cons.mp (List.mem_reverse.mp member) with rfl | digit
      · decide
      · exact (digit_plain c (Nat.isDigit_of_mem_toDigits (by decide) (by decide) digit)).2.2.2
    have dotted : '.' ∈ (aofFilename (Int.negSucc n)).toList := by
      rw [aofFilename_negSucc]
      exact List.mem_append_left _ (by decide)
    have front : "naruto.aof.".toList.reverse = '.' :: "foa.oturan".toList := by decide
    have behind : ((aofFilename (Int.negSucc n)).toList.reverse.takeWhile (· != '.')).reverse =
        '-' :: Nat.toDigits 10 (n + 1) := by
      rw [aofFilename_negSucc, List.reverse_append, front, List.takeWhile_append_of_pos plain,
        List.takeWhile_cons_of_neg (by decide), List.append_nil, List.reverse_reverse]
    rw [parseFileName, if_pos dotted, behind, stoi_minus (n + 1) (by omega)]
    rfl

/-- Different numbers have different names. -/
theorem aofFilename_injective {i j : Int} (first : isInt i = true) (second : isInt j = true)
    (same : aofFilename i = aofFilename j) : i = j := by
  have parsed := parseFileName_aof i first
  rw [same, parseFileName_aof j second] at parsed
  exact (Option.some.inj parsed).symm

/-- A name has `aof` in it. -/
theorem findsAof_aof (idx : Int) : findsAof (aofFilename idx) = true := by
  have split : (aofFilename idx).toList = "naruto.".toList ++ ("aof".toList ++ ('.' :: (toString idx).toList)) := by
    rw [aofFilename, String.toList_append]
    rfl
  rw [findsAof, List.any_eq_true]
  refine ⟨_, (List.mem_tails _ _).mpr ⟨_, split.symm⟩, ?_⟩
  rw [List.isPrefixOf_iff_prefix]
  exact List.prefix_append _ _

/-- A regular file with the name of a number that is not -1 is listed. -/
theorem takesName_aof {entry : DirEntry} {idx : Int} (regular : entry.regular = true)
    (name : entry.name = aofFilename idx) (bound : isInt idx = true) (numbered : idx ≠ -1) :
    takesName (-1) entry = some true ∧ aofIndex entry.name = idx := by
  have parsed : parseFileName entry.name = some idx := by rw [name, parseFileName_aof idx bound]
  have found : findsAof entry.name = true := by rw [name, findsAof_aof]
  constructor
  · rw [takesName, if_pos ⟨regular, found⟩, parsed]
    simp [numbered]
  · rw [aofIndex, parsed, Option.getD_some]

end File

end Naruto.Utils
