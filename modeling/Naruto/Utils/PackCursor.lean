import Mathlib.Logic.Relation
import Naruto.Utils.File

/-!
# The packet loop on any bytes

On bytes that need not be packets the loop goes where the length words send it. A word
below four, or one that asks for more than is there, stops it four bytes further on. Any
other word moves the read position by itself. That is so for the words four to seven as
well: the 64-bit difference of the test is small for them, but the 32-bit difference that
is the size of the body has wrapped.

The places that the loop comes to are described on the file alone, and then every pass
of the code's loops is found at one of them.
-/

namespace Naruto.Utils

open Naruto.Theory File

/-- The length word at a place. -/
def wordAt (bytes : List UInt8) (r : Nat) : Nat := leNat ((bytes.drop r).take 4)

/-- A length word has 32 bits. -/
theorem wordAt_lt (bytes : List UInt8) (r : Nat) : wordAt bytes r < 2 ^ 32 := by
  have bound := leNat_lt ((bytes.drop r).take 4)
  exact Nat.lt_of_lt_of_le bound (Nat.pow_le_pow_right (by decide) (List.length_take_le 4 _))

/-- A word that lies in the first bytes. -/
theorem wordAt_take (bytes : List UInt8) {n r : Nat} (inside : r + 4 ≤ n) :
    wordAt (bytes.take n) r = wordAt bytes r := by
  rw [wordAt, List.drop_take, List.take_take, Nat.min_eq_left (by omega), wordAt]

/-- The length word as the loop reads it. -/
theorem getInt_filled (buf : List UInt8) (r : Nat) (fits : buf.length < 2 ^ 32) (some4 : 4 < buf.length - r) :
    (Bytes.filled buf r).getInt = (UInt32.ofNat (wordAt buf r), Bytes.filled buf (r + 4)) :=
  getInt_of_read (Bytes.readAt_filled buf r 4 r fits (by omega))

/-- A word below four makes the 64-bit difference wrap, so that nothing is enough. -/
theorem nextPack_tiny (buf : List UInt8) (r : Nat) (fits : buf.length < 2 ^ 32) (some4 : 4 < buf.length - r)
    (tiny : wordAt buf r < 4) : nextPack (Bytes.filled buf r) = (Bytes.filled buf (r + 4), none) := by
  have many : 4 < (Bytes.filled buf r).bytesRemaining := (remaining_test buf r fits (by omega)).mpr some4
  have value : (UInt32.ofNat (wordAt buf r)).toUInt64.toNat = wordAt buf r := word_toNat _ (wordAt_lt buf r)
  have left := Bytes.bytesRemaining_filled buf (r + 4) fits (by omega)
  have four : (4 : UInt64).toNat = 4 := rfl
  have missing : (Bytes.filled buf (r + 4)).bytesRemaining.toUInt64 < (UInt32.ofNat (wordAt buf r)).toUInt64 - 4 := by
    rw [UInt64.lt_iff_toNat_lt, UInt64.toNat_sub, value, UInt32.toNat_toUInt64, left, four]
    omega
  simp only [nextPack, many, ↓reduceIte, getInt_filled buf r fits some4, missing]

/-- Where the body of a packet ends, in 32 bits: the word alone is added. -/
theorem takeBody_moves (buf : List UInt8) (r word : Nat) :
    (takeBody (UInt32.ofNat word) (Bytes.filled buf (r + 4))).1 = Bytes.filled buf (r + word) := by
  have first : (Bytes.filled buf (r + 4)).advance 2 = Bytes.filled buf (r + 6) := Bytes.advance_filled buf (r + 4) 2
  have second : (Bytes.filled buf (r + 6)).advance 2 = Bytes.filled buf (r + 8) := Bytes.advance_filled buf (r + 6) 2
  have place : UInt32.ofNat (r + 8) + (UInt32.ofNat word - 8) = UInt32.ofNat (r + word) := by
    rw [UInt32.ofNat_add r 8, UInt32.ofNat_add r word, UInt32.add_assoc]
    congr 1
    rw [UInt32.add_comm]
    exact UInt32.sub_add_cancel _ _
  simp only [takeBody, Bytes.getShort, Bytes.getBytes, first, second]
  rw [Bytes.advance]
  exact congrArg (fun position => (⟨UInt32.ofNat buf.length, position, buf⟩ : Bytes)) place

/-- The body that a packet's word asks for. It begins behind the header, and the difference does
not wrap. -/
theorem takeBody_body (buf : List UInt8) (r : Nat) {word : Nat} (fits : buf.length < 2 ^ 32) (least : 8 ≤ word)
    (there : r + word ≤ buf.length) :
    (takeBody (UInt32.ofNat word) (Bytes.filled buf (r + 4))).2.msg = (buf.drop (r + 8)).take (word - 8) := by
  have first : (Bytes.filled buf (r + 4)).advance 2 = Bytes.filled buf (r + 6) := Bytes.advance_filled buf (r + 4) 2
  have second : (Bytes.filled buf (r + 6)).advance 2 = Bytes.filled buf (r + 8) := Bytes.advance_filled buf (r + 6) 2
  have enough : (8 : UInt32) ≤ UInt32.ofNat word := by
    rw [UInt32.le_iff_toNat_le, word_toNat word (by omega)]
    exact least
  have size : UInt32.ofNat word - 8 = UInt32.ofNat (word - 8) := by
    apply UInt32.toNat_inj.mp
    rw [UInt32.toNat_sub_of_le _ _ enough, word_toNat word (by omega), word_toNat (word - 8) (by omega)]
    rfl
  simp only [takeBody, Bytes.getShort, first, second, size,
    Bytes.getBytes_filled buf (r + 8) (word - 8) fits (by omega)]

/-- A word of at least four that asks for no more than is there is taken. -/
theorem nextPack_take (buf : List UInt8) (r : Nat) (fits : buf.length < 2 ^ 32) (some4 : 4 < buf.length - r)
    (least : 4 ≤ wordAt buf r) (there : r + wordAt buf r ≤ buf.length) :
    nextPack (Bytes.filled buf r) = (Bytes.filled buf (r + wordAt buf r),
      some (takeBody (UInt32.ofNat (wordAt buf r)) (Bytes.filled buf (r + 4))).2) := by
  have many : 4 < (Bytes.filled buf r).bytesRemaining := (remaining_test buf r fits (by omega)).mpr some4
  have enough : ¬ (Bytes.filled buf (r + 4)).bytesRemaining.toUInt64 <
      (UInt32.ofNat (wordAt buf r)).toUInt64 - 4 := by
    rw [arrived_test buf (r + 4) _ fits (by omega) least (wordAt_lt buf r)]
    omega
  simp only [nextPack, many, ↓reduceIte, getInt_filled buf r fits some4, enough, takeBody_moves]

/-- What a pass on a filled buffer can do: nothing, when at most a length word is unread;
stop behind the length word; or take a packet. -/
theorem nextPack_filled (buf : List UInt8) (r : Nat) (fits : buf.length < 2 ^ 32) (inside : r ≤ buf.length) :
    (buf.length - r ≤ 4 ∧ nextPack (Bytes.filled buf r) = (Bytes.filled buf r, none)) ∨
    (4 < buf.length - r ∧ (wordAt buf r < 4 ∨ buf.length < r + wordAt buf r) ∧
      nextPack (Bytes.filled buf r) = (Bytes.filled buf (r + 4), none)) ∨
    (4 < buf.length - r ∧ 4 ≤ wordAt buf r ∧ r + wordAt buf r ≤ buf.length ∧
      nextPack (Bytes.filled buf r) = (Bytes.filled buf (r + wordAt buf r),
        some (takeBody (UInt32.ofNat (wordAt buf r)) (Bytes.filled buf (r + 4))).2)) := by
  by_cases some4 : 4 < buf.length - r
  · by_cases tiny : wordAt buf r < 4
    · exact Or.inr (Or.inl ⟨some4, Or.inl tiny, nextPack_tiny buf r fits some4 tiny⟩)
    · by_cases there : r + wordAt buf r ≤ buf.length
      · have least := Nat.not_lt.mp tiny
        exact Or.inr (Or.inr ⟨some4, least, there, nextPack_take buf r fits some4 least there⟩)
      · have stuck := nextPack_stuck buf r _ fits inside some4 (getInt_filled buf r fits some4) (wordAt_lt buf r)
          (by omega)
        exact Or.inr (Or.inl ⟨some4, Or.inr (Nat.not_le.mp there), stuck⟩)
  · exact Or.inl ⟨Nat.not_lt.mp some4, nextPack_idle buf r fits inside (Nat.not_lt.mp some4)⟩

/-- The buffers on which the packet loop makes its test, one after another. -/
def packPasses (bytes : Bytes) : List Bytes :=
  match _taken : nextPack bytes with
  | (_, none) => [bytes]
  | (bytes', some _) => bytes :: packPasses bytes'
termination_by bytes.bytesRemaining.toNat
decreasing_by
  rename_i call
  have smaller := nextPack_decreases bytes call (by rw [_taken])
  rw [_taken] at smaller
  exact UInt32.lt_iff_toNat_lt.mp smaller

/-- The loop ends with a pass that takes no packet, -/
theorem packPasses_stop {bytes left : Bytes} (ended : nextPack bytes = (left, none)) : packPasses bytes = [bytes] := by
  rw [packPasses]
  split
  · rfl
  · rename_i taken
    cases ended.symm.trans taken

/-- and goes on behind one that takes some. -/
theorem packPasses_take {bytes left : Bytes} {call : Call} (taken : nextPack bytes = (left, some call)) :
    packPasses bytes = bytes :: packPasses left := by
  rw [packPasses]
  split
  · rename_i stopped
    cases taken.symm.trans stopped
  · rename_i other call' took
    obtain ⟨rfl, _⟩ := Prod.mk.inj (taken.symm.trans took)
    rfl

/-- The packets that the loop takes are those of its passes. -/
theorem packLoop_passes (bytes : Bytes) :
    (packLoop bytes).2 = (packPasses bytes).filterMap fun b => (nextPack b).2 := by
  induction bytes using packPasses.induct with
  | case1 bytes left stopped =>
    rw [packLoop_stop _ _ stopped, packPasses_stop stopped]
    simp only [List.filterMap_cons, stopped, List.filterMap_nil]
  | case2 bytes left call taken ih =>
    rw [packLoop_take _ _ _ taken, packPasses_take taken, ih]
    simp only [List.filterMap_cons, taken]

/-- The passes over all blocks, for a loop that also ends when it has read enough; nothing
when a copy into the buffer is undefined. -/
def blockPasses (goesOn : Nat → Bool) (rest : List UInt8) (readed : Nat) (bytes : Bytes) : Option (List Bytes) := do
  let bytes ← bytes.putBytes (rest.take blockSize)
  let readed := readed + (rest.take blockSize).length
  if rest.length < blockSize ∨ goesOn readed = false then some (packPasses bytes)
  else do
    let later ← blockPasses goesOn (rest.drop blockSize) readed (packLoop bytes).1
    some (packPasses bytes ++ later)
termination_by rest.length
decreasing_by
  have positive : 0 < blockSize := by decide
  rw [List.length_drop]
  omega

/-- What should hold of a pass: the read position is inside the buffer before and behind
it, and a body that is handed on has the length that the packet's word leaves for it, and
is a contiguous part of the bytes read. -/
structure SafePass (rest : List UInt8) (bytes : Bytes) : Prop where
  read : bytes.buf <+: rest
  inside : bytes.rpos.toNat ≤ bytes.buf.length
  behind : (nextPack bytes).1.rpos.toNat ≤ bytes.buf.length
  body : ∀ call, (nextPack bytes).2 = some call →
    call.msg.length + 8 = wordAt rest bytes.rpos.toNat ∧
      bytes.rpos.toNat + 8 + call.msg.length ≤ bytes.buf.length ∧
      call.msg = (rest.drop (bytes.rpos.toNat + 8)).take call.msg.length

section Cursor

variable (goesOn : Nat → Bool) (rest : List UInt8)

/-- The bytes that have been read with the block of this number, counted from zero. -/
def buffered (k : Nat) : List UInt8 := rest.take (blockSize * (k + 1))

/-- Another block is read behind it. -/
def GoesOn (k : Nat) : Prop := blockSize * (k + 1) ≤ rest.length ∧ goesOn (blockSize * (k + 1)) = true

/-- The moves of the read position over the blocks. -/
inductive Moves : Nat × Nat → Nat × Nat → Prop
  | takes {k r : Nat} (unread : 4 < (buffered rest k).length - r) (least : 4 ≤ wordAt rest r)
      (there : r + wordAt rest r ≤ (buffered rest k).length) : Moves (k, r) (k, r + wordAt rest r)
  | idles {k r : Nat} (few : (buffered rest k).length - r ≤ 4) (more : GoesOn goesOn rest k) : Moves (k, r) (k + 1, r)
  | stops {k r : Nat} (unread : 4 < (buffered rest k).length - r)
      (missing : wordAt rest r < 4 ∨ (buffered rest k).length < r + wordAt rest r) (more : GoesOn goesOn rest k) :
      Moves (k, r) (k + 1, r + 4)

/-- The blocks and places that the loop comes to. -/
def Comes (x : Nat × Nat) : Prop := Relation.ReflTransGen (Moves goesOn rest) (0, 0) x

/-- A length word from four to seven, with as many bytes there. -/
def ShortWord (x : Nat × Nat) : Prop :=
  4 < (buffered rest x.1).length - x.2 ∧ 4 ≤ wordAt rest x.2 ∧ wordAt rest x.2 < 8 ∧
    x.2 + wordAt rest x.2 ≤ (buffered rest x.1).length

/-- Whether a word is short can be decided. -/
instance (x : Nat × Nat) : Decidable (ShortWord rest x) := inferInstanceAs (Decidable (_ ∧ _))

variable {goesOn rest}

/-- A word that is in the buffer whole is the word in the file. -/
theorem wordAt_buffered {k r : Nat} (unread : 4 < (buffered rest k).length - r) :
    wordAt (buffered rest k) r = wordAt rest r := by
  have short : (buffered rest k).length ≤ blockSize * (k + 1) := List.length_take_le _ _
  exact wordAt_take rest (by omega)

/-- A pass that hands nothing on and leaves the read position inside is safe. There is no body
to ask about. -/
theorem safePass_of_stop {k r stop : Nat} (fits : (buffered rest k).length < 2 ^ 32)
    (inside : r ≤ (buffered rest k).length) (within : stop ≤ (buffered rest k).length)
    (stopped : nextPack (Bytes.filled (buffered rest k) r) = (Bytes.filled (buffered rest k) stop, none)) :
    SafePass rest (Bytes.filled (buffered rest k) r) where
  read := List.take_prefix _ _
  inside := by
    rw [Bytes.filled_rpos _ _ fits inside]
    exact inside
  behind := by
    rw [stopped, Bytes.filled_rpos _ _ fits within]
    exact within
  body := by
    intro call took
    rw [stopped] at took
    cases took

/-- A pass that takes a packet is safe when its word leaves room for the header. Its body then
lies inside the buffer, and the buffer holds a part of the file. -/
theorem safePass_of_take {k r : Nat} (fits : (buffered rest k).length < 2 ^ 32) (inside : r ≤ (buffered rest k).length)
    (large : 8 ≤ wordAt rest r) (there : r + wordAt rest r ≤ (buffered rest k).length)
    (taken : nextPack (Bytes.filled (buffered rest k) r) = (Bytes.filled (buffered rest k) (r + wordAt rest r),
      some (takeBody (UInt32.ofNat (wordAt rest r)) (Bytes.filled (buffered rest k) (r + 4))).2)) :
    SafePass rest (Bytes.filled (buffered rest k) r) where
  read := List.take_prefix _ _
  inside := by
    rw [Bytes.filled_rpos _ _ fits inside]
    exact inside
  behind := by
    rw [taken, Bytes.filled_rpos _ _ fits there]
    exact there
  body := by
    intro call took
    have short : (buffered rest k).length ≤ blockSize * (k + 1) := List.length_take_le _ _
    have part : ((buffered rest k).drop (r + 8)).take (wordAt rest r - 8) =
        (rest.drop (r + 8)).take (wordAt rest r - 8) := by
      rw [buffered, List.drop_take, List.take_take, Nat.min_eq_left (by omega)]
    have length : (((buffered rest k).drop (r + 8)).take (wordAt rest r - 8)).length = wordAt rest r - 8 := by
      rw [List.length_take, List.length_drop]
      omega
    have storage : (Bytes.filled (buffered rest k) r).buf = buffered rest k := rfl
    rw [taken] at took
    obtain rfl := Option.some.inj took
    rw [Bytes.filled_rpos _ _ fits inside, takeBody_body (buffered rest k) r fits large there, length, storage]
    exact ⟨by omega, by omega, part⟩

/-- A pass is safe unless it comes to a short word. It stops, takes a packet with a header, or
takes one whose size has wrapped. -/
theorem safePass_iff {k r : Nat} (fits : (buffered rest k).length < 2 ^ 32) (inside : r ≤ (buffered rest k).length) :
    SafePass rest (Bytes.filled (buffered rest k) r) ↔ ¬ ShortWord rest (k, r) := by
  rcases nextPack_filled (buffered rest k) r fits inside with ⟨few, idle⟩ | ⟨unread, missing, stopped⟩ |
    ⟨unread, least, there, taken⟩
  · exact ⟨fun _ short => absurd short.1 (Nat.not_lt.mpr few), fun _ => safePass_of_stop fits inside inside idle⟩
  · rw [wordAt_buffered unread] at missing
    refine ⟨fun _ short => ?_, fun _ => safePass_of_stop fits inside (by omega) stopped⟩
    obtain ⟨_, least, _, there⟩ := short
    dsimp only at least there
    omega
  · rw [wordAt_buffered unread] at least there taken
    by_cases large : 8 ≤ wordAt rest r
    · exact ⟨fun _ short => absurd short.2.2.1 (Nat.not_lt.mpr large),
        fun _ => safePass_of_take fits inside large there taken⟩
    · refine ⟨fun safe _ => ?_, fun fine => absurd ⟨unread, least, Nat.not_le.mp large, there⟩ fine⟩
      have size := (safe.body _ (congrArg Prod.snd taken)).1
      rw [Bytes.filled_rpos _ _ fits inside] at size
      omega

/-- What holds wherever moves lead holds here, and wherever the moves from the next
places lead. -/
theorem forall_reach_iff {State : Type*} {moves : State → State → Prop} {s : State} {P : State → Prop} :
    (∀ x, Relation.ReflTransGen moves s x → P x) ↔
      P s ∧ ∀ t, moves s t → ∀ x, Relation.ReflTransGen moves t x → P x := by
  constructor
  · exact fun all => ⟨all s .refl, fun t first x later => all x (.head first later)⟩
  · rintro ⟨here, next⟩ x reached
    rcases Relation.ReflTransGen.cases_head_iff.mp reached with rfl | ⟨t, first, later⟩
    · exact here
    · exact next t first x later

/-- The passes of one block are the places that the moves within it lead to; then the
moves go on with the next block, from where the packet loop stops. By induction on what
is unread. -/
theorem packPasses_iff {k r : Nat} (fits : (buffered rest k).length < 2 ^ 32) (inside : r ≤ (buffered rest k).length)
    (P : Nat × Nat → Prop) (Q : Bytes → Prop)
    (same : ∀ r, r ≤ (buffered rest k).length → (P (k, r) ↔ Q (Bytes.filled (buffered rest k) r))) :
    ∃ stop, stop ≤ (buffered rest k).length ∧
      (packLoop (Bytes.filled (buffered rest k) r)).1 = Bytes.filled (buffered rest k) stop ∧
      ((∀ x, Relation.ReflTransGen (Moves goesOn rest) (k, r) x → P x) ↔
        (∀ bytes ∈ packPasses (Bytes.filled (buffered rest k) r), Q bytes) ∧
          (GoesOn goesOn rest k → ∀ x, Relation.ReflTransGen (Moves goesOn rest) (k + 1, stop) x → P x)) := by
  induction left : (buffered rest k).length - r using Nat.strong_induction_on generalizing r with
  | h n ih =>
    rcases nextPack_filled (buffered rest k) r fits inside with ⟨few, idle⟩ | ⟨unread, missing, stopped⟩ |
      ⟨unread, least, there, taken⟩
    · refine ⟨r, inside, congrArg Prod.fst (packLoop_stop _ _ idle), ?_⟩
      rw [packPasses_stop idle, forall_reach_iff, same r inside]
      refine and_congr (by simp) ⟨fun next more => next _ (.idles few more), fun next t moved => ?_⟩
      cases moved with
      | takes unread => exact absurd unread (by omega)
      | idles _ more => exact next more
      | stops unread => exact absurd unread (by omega)
    · rw [wordAt_buffered unread] at missing
      refine ⟨r + 4, by omega, congrArg Prod.fst (packLoop_stop _ _ stopped), ?_⟩
      rw [packPasses_stop stopped, forall_reach_iff, same r inside]
      refine and_congr (by simp) ⟨fun next more => next _ (.stops unread missing more), fun next t moved => ?_⟩
      cases moved with
      | takes _ least there => exact absurd missing (by omega)
      | idles few => exact absurd few (by omega)
      | stops _ _ more => exact next more
    · rw [wordAt_buffered unread] at least there taken
      obtain ⟨stop, within, stopped, rest'⟩ := ih _ (by omega) there rfl
      refine ⟨stop, within, ?_, ?_⟩
      · rw [packLoop_take _ _ _ taken]
        exact stopped
      · rw [packPasses_take taken, forall_reach_iff, same r inside, List.forall_mem_cons, and_assoc, ← rest']
        refine and_congr Iff.rfl ⟨fun next => next _ (.takes unread least there), fun next t moved => ?_⟩
        cases moved with
        | takes => exact next
        | idles few => exact absurd few (by omega)
        | stops _ missing => exact absurd missing (by omega)

/-- The number of bytes read behind a full block. -/
theorem readed_full {k : Nat} (full : blockSize * (k + 1) ≤ rest.length) :
    blockSize * k + ((rest.drop (blockSize * k)).take blockSize).length = blockSize * (k + 1) := by
  rw [Nat.mul_succ] at full
  rw [List.length_take, List.length_drop, Nat.mul_succ]
  omega

/-- The test of the outer loop. It ends with a block that is not full, or when enough has been
read. -/
theorem ends_iff (k : Nat) :
    ((rest.drop (blockSize * k)).length < blockSize ∨
      goesOn (blockSize * k + ((rest.drop (blockSize * k)).take blockSize).length) = false) ↔
      ¬ GoesOn goesOn rest k := by
  rw [GoesOn, List.length_drop]
  by_cases full : blockSize * (k + 1) ≤ rest.length
  · have long : ¬ rest.length - blockSize * k < blockSize := by
      rw [Nat.mul_succ] at full
      omega
    rw [readed_full full, or_iff_right long, not_and, Bool.not_eq_true]
    exact ⟨fun refused _ => refused, fun refused => refused full⟩
  · have positive : 0 < blockSize := by decide
    have short : rest.length - blockSize * k < blockSize := by
      rw [Nat.mul_succ] at full
      omega
    exact ⟨fun _ more => full more.1, fun _ => Or.inl short⟩

/-- A block is read in front of the first ones, when the buffer has room for it. -/
theorem putBytes_block {k r : Nat} (room : (buffered rest k).length < 2 ^ 32) :
    (Bytes.filled (rest.take (blockSize * k)) r).putBytes ((rest.drop (blockSize * k)).take blockSize) =
      some (Bytes.filled (buffered rest k) r) := by
  have block : rest.take (blockSize * k) ++ (rest.drop (blockSize * k)).take blockSize = buffered rest k := by
    rw [buffered, Nat.mul_succ, List.take_add]
  have total := congrArg List.length block
  rw [List.length_append] at total
  have written := Bytes.putBytes_filled (rest.take (blockSize * k)) ((rest.drop (blockSize * k)).take blockSize) r
    (by omega)
  rw [block] at written
  exact written

/-- Else the copy is undefined. -/
theorem putBytes_block_none {k r : Nat} (whole : blockSize * k ≤ rest.length) (fits : blockSize * k < 2 ^ 32)
    (full : ¬ (buffered rest k).length < 2 ^ 32) :
    (Bytes.filled (rest.take (blockSize * k)) r).putBytes ((rest.drop (blockSize * k)).take blockSize) = none := by
  have block : rest.take (blockSize * k) ++ (rest.drop (blockSize * k)).take blockSize = buffered rest k := by
    rw [buffered, Nat.mul_succ, List.take_add]
  have before : (rest.take (blockSize * k)).length = blockSize * k := List.length_take_of_le whole
  have total := congrArg List.length block
  rw [List.length_append] at total
  exact Bytes.putBytes_overflows _ _ r (by omega) (by omega)

/-- The passes of the last block that is read. -/
theorem blockPasses_last {k r : Nat} (room : (buffered rest k).length < 2 ^ 32)
    (ends : ¬ GoesOn goesOn rest k) :
    blockPasses goesOn (rest.drop (blockSize * k)) (blockSize * k) (Bytes.filled (rest.take (blockSize * k)) r) =
      some (packPasses (Bytes.filled (buffered rest k) r)) := by
  rw [blockPasses, putBytes_block room, Option.bind_eq_bind, Option.bind_some]
  exact if_pos ((@ends_iff goesOn rest k).mpr ends)

/-- The passes of another block come before those of the next ones. The block is full, and the
buffer behind it is that of one block more. -/
theorem blockPasses_more {k r stop : Nat} (room : (buffered rest k).length < 2 ^ 32) (more : GoesOn goesOn rest k)
    (stopped : (packLoop (Bytes.filled (buffered rest k) r)).1 = Bytes.filled (buffered rest k) stop) :
    blockPasses goesOn (rest.drop (blockSize * k)) (blockSize * k) (Bytes.filled (rest.take (blockSize * k)) r) =
      (blockPasses goesOn (rest.drop (blockSize * (k + 1))) (blockSize * (k + 1))
        (Bytes.filled (rest.take (blockSize * (k + 1))) stop)).map
          (packPasses (Bytes.filled (buffered rest k) r) ++ ·) := by
  have full := more.1
  have further := (@ends_iff goesOn rest k).not.mpr (not_not.mpr more)
  have behind : (rest.drop (blockSize * k)).drop blockSize = rest.drop (blockSize * (k + 1)) := by
    rw [List.drop_drop, Nat.mul_succ]
  have stored : rest.take (blockSize * (k + 1)) = buffered rest k := rfl
  rw [blockPasses, putBytes_block room, Option.bind_eq_bind, Option.bind_some]
  simp only [if_neg further]
  simp only [readed_full full, behind, stopped, stored]
  rw [Option.map_eq_bind]
  rfl

/-- The passes over the blocks from one on are the places that the moves lead to from there. By
induction on what is left of the file. Each block begins where the moves of the one before have
stopped. -/
theorem blockPasses_iff {k r : Nat} (whole : blockSize * k ≤ rest.length) (fits : blockSize * k < 2 ^ 32)
    (inside : r ≤ blockSize * k) (P : Nat × Nat → Prop) (Q : Bytes → Prop)
    (same : ∀ k r, r ≤ (buffered rest k).length →
      (P (k, r) ↔ (buffered rest k).length < 2 ^ 32 ∧ Q (Bytes.filled (buffered rest k) r))) :
    (∃ passes, blockPasses goesOn (rest.drop (blockSize * k)) (blockSize * k)
        (Bytes.filled (rest.take (blockSize * k)) r) = some passes ∧ ∀ bytes ∈ passes, Q bytes) ↔
      ∀ x, Relation.ReflTransGen (Moves goesOn rest) (k, r) x → P x := by
  induction left : rest.length - blockSize * k using Nat.strong_induction_on generalizing k r with
  | h n ih =>
    have within : r ≤ (buffered rest k).length := by
      rw [buffered, List.length_take, Nat.mul_succ]
      omega
    by_cases room : (buffered rest k).length < 2 ^ 32
    · obtain ⟨stop, inside', stopped, passes⟩ := @packPasses_iff goesOn rest k r room within P Q
        fun r within => (same k r within).trans (and_iff_right room)
      rw [passes]
      by_cases more : GoesOn goesOn rest k
      · have full := more.1
        have size : (buffered rest k).length = blockSize * (k + 1) := List.length_take_of_le full
        have shorter : rest.length - blockSize * (k + 1) < n := by
          have positive : 0 < blockSize := by decide
          rw [Nat.mul_succ] at full ⊢
          omega
        have later := ih _ shorter full (size ▸ room) (size ▸ inside') rfl
        rw [blockPasses_more room more stopped, ← later]
        constructor
        · rintro ⟨all, made, holds⟩
          obtain ⟨others, made', rfl⟩ := Option.map_eq_some_iff.mp made
          exact ⟨fun bytes member => holds bytes (List.mem_append_left _ member), fun _ =>
            ⟨others, made', fun bytes member => holds bytes (List.mem_append_right _ member)⟩⟩
        · rintro ⟨first, others⟩
          obtain ⟨others, made, holds⟩ := others more
          refine ⟨_, Option.map_eq_some_iff.mpr ⟨others, made, rfl⟩, fun bytes member => ?_⟩
          rcases List.mem_append.mp member with here | there
          · exact first bytes here
          · exact holds bytes there
      · rw [blockPasses_last room more]
        simp only [Option.some.injEq, exists_eq_left']
        exact (and_iff_left fun further => absurd further more).symm
    · rw [blockPasses, putBytes_block_none whole fits room]
      constructor
      · rintro ⟨passes, impossible, _⟩
        cases impossible
      · exact fun all => absurd ((same k r within).mp (all _ .refl)).1 room

/-- From every place of a block with another one behind it the moves lead there. By
induction on what is unread. -/
theorem reaches_next {k r : Nat} (inside : r ≤ (buffered rest k).length) (more : GoesOn goesOn rest k) :
    ∃ r', r' ≤ (buffered rest (k + 1)).length ∧ Relation.ReflTransGen (Moves goesOn rest) (k, r) (k + 1, r') := by
  have grows : (buffered rest k).length ≤ (buffered rest (k + 1)).length :=
    (List.take_prefix_take_left (Nat.mul_le_mul_left _ (Nat.le_succ _))).length_le
  induction left : (buffered rest k).length - r using Nat.strong_induction_on generalizing r with
  | h n ih =>
    by_cases unread : 4 < (buffered rest k).length - r
    · by_cases missing : wordAt rest r < 4 ∨ (buffered rest k).length < r + wordAt rest r
      · exact ⟨r + 4, by omega, .single (.stops unread missing more)⟩
      · obtain ⟨least, there⟩ := not_or.mp missing
        obtain ⟨r', inside', reached⟩ := ih _ (by omega) (Nat.not_lt.mp there) rfl
        exact ⟨r', inside', .head (.takes unread (Nat.not_lt.mp least) (Nat.not_lt.mp there)) reached⟩
    · exact ⟨r, by omega, .single (.idles (Nat.not_lt.mp unread) more)⟩

/-- The loop comes to every block that there is a reason to read. -/
theorem comes_block {k : Nat} (more : ∀ j, j < k → GoesOn goesOn rest j) :
    ∃ r, r ≤ (buffered rest k).length ∧ Comes goesOn rest (k, r) := by
  induction k with
  | zero => exact ⟨0, Nat.zero_le _, .refl⟩
  | succ k ih =>
    obtain ⟨r, inside, reached⟩ := ih fun j before => more j (Nat.lt_succ_of_lt before)
    obtain ⟨r', inside', later⟩ := reaches_next inside (more k (Nat.lt_succ_self k))
    exact ⟨r', inside', reached.trans later⟩

/-- And to no other. -/
theorem Comes.before {x : Nat × Nat} (comes : Comes goesOn rest x) : ∀ j, j < x.1 → GoesOn goesOn rest j := by
  induction comes with
  | refl => exact fun j before => absurd before (Nat.not_lt_zero j)
  | tail _ moved ih =>
    cases moved with
    | takes => exact ih
    | idles _ more => exact fun j before => (Nat.lt_succ_iff_lt_or_eq.mp before).elim (ih j) fun same => same ▸ more
    | stops _ _ more => exact fun j before => (Nat.lt_succ_iff_lt_or_eq.mp before).elim (ih j) fun same => same ▸ more

/-- All passes of a loop over a file are safe exactly when the buffer stays below 4 GiB and
the loop comes to no short word. -/
theorem blockPasses_safe_iff (goesOn : Nat → Bool) (rest : List UInt8) :
    (∃ passes, blockPasses goesOn rest 0 Bytes.cleared = some passes ∧ ∀ bytes ∈ passes, SafePass rest bytes) ↔
      ∀ x, Comes goesOn rest x → (buffered rest x.1).length < 2 ^ 32 ∧ ¬ ShortWord rest x :=
  blockPasses_iff (k := 0) (r := 0) (Nat.zero_le _) (by decide) (Nat.le_refl _)
    (fun x => (buffered rest x.1).length < 2 ^ 32 ∧ ¬ ShortWord rest x) (SafePass rest)
    fun _ _ inside => and_congr_right fun fits => (safePass_iff fits inside).symm

end Cursor

end Naruto.Utils
