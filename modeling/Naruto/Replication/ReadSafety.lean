import Naruto.Replication.ReadTurns

/-!
# Reading files of any content

`File::loadFile` and `onSendIncrToSlave` both read a file block by block and run the
packet loop behind every block; the sender stops when it has read enough. Whatever the
bytes are, both end behind a `seekg` that the system takes, and neither does behind one that
it refuses. Their reads stay inside the buffer, and what they hand on is part of the file, as
long as they come to no length word from four to seven.
-/

namespace Naruto.Replication

open Naruto.Theory Naruto.Utils Naruto.Utils.File

/-- The passes of `loadFile` behind a `seekg`: a file without a byte at the offset is not read. -/
def loadPasses (rest : List UInt8) : Option (List Bytes) :=
  if rest = [] then some [] else blockPasses (fun _ => true) rest 0 Bytes.cleared

/-- The passes of `onSendIncrToSlave`. -/
def sendPasses (rest : List UInt8) : Option (List Bytes) :=
  if rest = [] then some [] else blockPasses (fun readed => decide (readed < transferLen)) rest 0 Bytes.cleared

/-- The calls of the read loop of `loadFile` are those of its passes. By induction on the bytes
that are left: a block is one run of passes, and its calls come first. -/
theorem loadLoop_passes (rest : List UInt8) (readed : Nat) (bytes : Bytes) :
    loadLoop rest bytes = (blockPasses (fun _ => true) rest readed bytes).map callsOf := by
  induction left : rest.length using Nat.strong_induction_on generalizing rest readed bytes with
  | h n ih =>
    rw [loadLoop, blockPasses]
    cases bytes.putBytes (rest.take blockSize) with
    | none => rfl
    | some bytes =>
      simp only [Option.bind_eq_bind, Option.bind_some, Bool.true_eq_false, or_false]
      by_cases last : rest.length < blockSize
      · rw [if_pos last, if_pos last, packLoop_passes]
        rfl
      · have positive : 0 < blockSize := by decide
        have shorter : (rest.drop blockSize).length < n := by
          rw [List.length_drop]
          omega
        rw [if_neg last, if_neg last, ih _ shorter _ (readed + (rest.take blockSize).length) _ rfl, packLoop_passes]
        cases blockPasses (fun _ => true) (rest.drop blockSize) (readed + (rest.take blockSize).length)
            (packLoop bytes).1 with
        | none => rfl
        | some later => exact congrArg some List.filterMap_append.symm

/-- And so for the read loop of the sender. Its loop also ends when it has read enough, with the
passes so far. -/
theorem sendLoop_passes (rest : List UInt8) (readed : Nat) (bytes : Bytes) :
    (sendLoop rest readed bytes).map Sending.calls =
      (blockPasses (fun readed => decide (readed < transferLen)) rest readed bytes).map callsOf := by
  induction left : rest.length using Nat.strong_induction_on generalizing rest readed bytes with
  | h n ih =>
    rw [sendLoop, blockPasses]
    cases bytes.putBytes (rest.take blockSize) with
    | none => rfl
    | some bytes =>
      simp only [Option.bind_eq_bind, Option.bind_some, decide_eq_false_iff_not, Nat.not_lt]
      by_cases last : rest.length < blockSize ∨ transferLen ≤ readed + (rest.take blockSize).length
      · rw [if_pos last, if_pos last, Option.map_some, packLoop_passes]
        rfl
      · have positive : 0 < blockSize := by decide
        have shorter : (rest.drop blockSize).length < n := by
          rw [List.length_drop]
          omega
        have later := ih _ shorter _ (readed + (rest.take blockSize).length) (packLoop bytes).1 rfl
        rw [if_neg last, if_neg last, packLoop_passes]
        cases sent : sendLoop (rest.drop blockSize) (readed + (rest.take blockSize).length) (packLoop bytes).1 with
        | none =>
          rw [sent] at later
          rw [Option.map_eq_none_iff.mp later.symm]
          rfl
        | some sending =>
          rw [sent] at later
          obtain ⟨passes, made, calls⟩ := Option.map_eq_some_iff.mp later.symm
          rw [made]
          refine congrArg some ?_
          rw [callsOf, List.filterMap_append, ← callsOf, ← callsOf, calls]

/-- `loadFile` ends within some turns and hands on what its passes take, and every pass is
safe. -/
def LoadsSafely (limit : Nat) (contents : List UInt8) (offset : UInt64) : Prop :=
  let rest := contents.drop offset.toInt64.toInt.toNat
  ∃ turns passes, loadFileTurns limit turns contents offset = some (some (callsOf passes)) ∧
    loadPasses rest = some passes ∧ ∀ bytes ∈ passes, SafePass rest bytes

/-- The same for the sender, which collects what its passes take. It has left an empty file
before it seeks. -/
def SendsSafely (limit : Nat) (contents : List UInt8) (replAofOff : Int64) : Prop :=
  let rest := contents.drop replAofOff.toInt.toNat
  contents = [] ∨ ∃ turns passes, sendTurns limit turns contents replAofOff = some (some (callsOf passes)) ∧
    sendPasses rest = some passes ∧ ∀ bytes ∈ passes, SafePass rest bytes

/-- A loop that reads a file whatever it has read comes to no short word. -/
def LoadsNoShortWord (rest : List UInt8) : Prop := ∀ x, Comes (fun _ => true) rest x → ¬ ShortWord rest x

/-- Nor does the one that stops when it has read enough. -/
def SendsNoShortWord (rest : List UInt8) : Prop :=
  ∀ x, Comes (fun readed => decide (readed < transferLen)) rest x → ¬ ShortWord rest x

/-- Without bytes there is no word to come to. -/
theorem not_shortWord_nil (x : Nat × Nat) : ¬ ShortWord [] x := by
  rintro ⟨unread, _⟩
  rw [buffered, List.take_nil] at unread
  exact absurd unread (by simp)

/-- The bytes that the sender has read are fewer than 4 GiB. It goes on to another block only
below its limit. -/
theorem sends_fits (rest : List UInt8) {x : Nat × Nat}
    (comes : Comes (fun readed => decide (readed < transferLen)) rest x) :
    (buffered rest x.1).length < 2 ^ 32 := by
  have short : (buffered rest x.1).length ≤ blockSize * (x.1 + 1) := List.length_take_le _ _
  have size : blockSize = 4096 := rfl
  have limit : transferLen = 16384 := rfl
  rw [size] at short
  cases block : x.1 with
  | zero =>
    rw [block] at short
    omega
  | succ k =>
    have more := of_decide_eq_true (comes.before k (by omega)).2
    rw [block] at short
    rw [size] at more
    omega

/-- A file of 4 GiB or more is read until the buffer has that many bytes. -/
theorem loads_far (rest : List UInt8) (far : 2 ^ 32 ≤ rest.length) :
    ∃ x, Comes (fun _ => true) rest x ∧ 2 ^ 32 ≤ (buffered rest x.1).length := by
  have size : blockSize = 4096 := rfl
  obtain ⟨r, _, comes⟩ := @comes_block (fun _ => true) rest (2 ^ 20 - 1) fun j before =>
    ⟨by rw [size]; omega, rfl⟩
  refine ⟨_, comes, ?_⟩
  rw [buffered, List.length_take, size]
  omega

section Loops

variable {limit : Nat} {contents : List UInt8}

/-- Behind a `seekg` that the system refuses neither loop ends. -/
theorem not_ended {offset : Int64} (refused : ¬ InStream.Seeks limit offset) {enough : Nat → Bool}
    (nothing : enough 0 = false) (turns : Nat) :
    readTurns enough turns (InStream.seekg limit contents offset).peek 0 Bytes.cleared = none := by
  rw [InStream.peek_refused refused]
  exact readTurns_failed nothing turns contents

/-- Behind one that goes well a loop ends with what its passes take. A rest without a byte is at
its end at once. -/
theorem ended (contents : List UInt8) {offset : Int64} (seeks : InStream.Seeks limit offset) (enough : Nat → Bool) :
    ∃ turns, (readTurns enough turns (InStream.seekg limit contents offset).peek 0 Bytes.cleared).map
        (Option.map Sending.calls) =
      some ((if contents.drop offset.toInt.toNat = [] then some []
        else blockPasses (fun readed => !enough readed) (contents.drop offset.toInt.toNat) 0 Bytes.cleared).map
          callsOf) := by
  rw [InStream.peek_seekg seeks]
  by_cases nothing : contents.drop offset.toInt.toNat = []
  · refine ⟨1, ?_⟩
    rw [if_pos nothing, nothing, readTurns_ended _ _ rfl]
    rfl
  · have more : (contents.drop offset.toInt.toNat).isEmpty = false := by simpa using nothing
    rw [if_neg nothing, more]
    exact readTurns_good enough _ 0 Bytes.cleared

/-- `loadFile` behind a `seekg` that goes well: it ends with the calls that the recursion on the
unread bytes makes. -/
theorem loadFile_ended {offset : UInt64} (seeks : InStream.Seeks limit offset.toInt64) :
    ∃ turns, loadFileTurns limit turns contents offset =
      some (loadFile (some contents) offset.toInt64.toInt.toNat) := by
  obtain ⟨turns, within⟩ := ended contents seeks fun _ => false
  refine ⟨turns, within.trans (congrArg some ?_)⟩
  rw [loadFile]
  by_cases nothing : contents.drop offset.toInt64.toInt.toNat = []
  · simp only [nothing, ↓reduceIte, Option.map_some]
    rfl
  · simp only [nothing, ↓reduceIte]
    exact (loadLoop_passes _ 0 _).symm

/-- The sender goes on as long as it has not read enough. -/
theorem not_enough : (fun readed => !decide (transferLen ≤ readed)) = fun readed => decide (readed < transferLen) := by
  funext readed
  simp only [← decide_not, Nat.not_le]

/-- The loop of the sender behind a `seekg` that goes well: it ends with the packets that the
recursion on the unread bytes collects. -/
theorem readWindow_ended {replAofOff : Int64} (seeks : InStream.Seeks limit replAofOff) :
    ∃ turns, sendTurns limit turns contents replAofOff =
      some ((readWindow (contents.drop replAofOff.toInt.toNat)).map Sending.calls) := by
  obtain ⟨turns, within⟩ := ended contents seeks fun readed => decide (transferLen ≤ readed)
  refine ⟨turns, within.trans (congrArg some ?_)⟩
  rw [readWindow, not_enough]
  by_cases nothing : contents.drop replAofOff.toInt.toNat = []
  · simp only [nothing, ↓reduceIte, Option.map_some]
    rfl
  · simp only [nothing, ↓reduceIte]
    exact (sendLoop_passes _ 0 _).symm

end Loops

/-- `loadFile` is safe exactly when `seekg` takes the offset, fewer than 4 GiB lie behind it,
and it comes to no short word. An empty rest is read at once. Else the loop goes through
blocks, each a run of passes, and every pass is at a place that the words lead to. -/
theorem loadsSafely_iff (limit : Nat) (contents : List UInt8) (offset : UInt64) :
    LoadsSafely limit contents offset ↔ InStream.Seeks limit offset.toInt64 ∧
      (contents.drop offset.toInt64.toInt.toNat).length < 2 ^ 32 ∧
      LoadsNoShortWord (contents.drop offset.toInt64.toInt.toNat) := by
  by_cases seeks : InStream.Seeks limit offset.toInt64
  · rw [LoadsSafely, loadPasses]
    generalize same : contents.drop offset.toInt64.toInt.toNat = rest
    obtain ⟨turns, within⟩ := ended contents seeks fun _ => false
    rw [same] at within
    by_cases nothing : rest = []
    · subst nothing
      refine iff_of_true ⟨turns, [], within, rfl, fun _ member => by cases member⟩
        ⟨seeks, by decide, fun x _ => not_shortWord_nil x⟩
    · simp only [if_neg nothing] at within ⊢
      have safe := blockPasses_safe_iff (fun _ => true) rest
      constructor
      · rintro ⟨_, passes, _, made, holds⟩
        have all := safe.mp ⟨passes, made, holds⟩
        refine ⟨seeks, ?_, fun x comes => (all x comes).2⟩
        by_contra far
        obtain ⟨x, comes, more⟩ := loads_far _ (Nat.not_lt.mp far)
        exact absurd (all x comes).1 (Nat.not_lt.mpr more)
      · rintro ⟨_, fits, noShort⟩
        obtain ⟨passes, made, holds⟩ := safe.mpr fun x comes =>
          ⟨Nat.lt_of_le_of_lt (List.length_take_le' _ _) fits, noShort x comes⟩
        refine ⟨turns, passes, within.trans ?_, made, holds⟩
        exact congrArg (fun passes => some (Option.map callsOf passes)) made
  · refine iff_of_false ?_ fun all => seeks all.1
    rintro ⟨turns, passes, within, _⟩
    rw [loadFileTurns, not_ended seeks rfl, Option.map_none] at within
    cases within

/-- The sender is safe on an empty file, and else exactly when `seekg` takes its offset and it
comes to no short word. The window stops at the limit, but the passes before are the same. -/
theorem sendsSafely_iff (limit : Nat) (contents : List UInt8) (replAofOff : Int64) :
    SendsSafely limit contents replAofOff ↔ contents = [] ∨ InStream.Seeks limit replAofOff ∧
      SendsNoShortWord (contents.drop replAofOff.toInt.toNat) := by
  refine or_congr Iff.rfl ?_
  by_cases seeks : InStream.Seeks limit replAofOff
  · rw [sendPasses]
    generalize same : contents.drop replAofOff.toInt.toNat = rest
    obtain ⟨turns, within⟩ := ended contents seeks fun readed => decide (transferLen ≤ readed)
    rw [same, not_enough] at within
    by_cases nothing : rest = []
    · subst nothing
      exact iff_of_true ⟨turns, [], within, rfl, fun _ member => by cases member⟩
        ⟨seeks, fun x _ => not_shortWord_nil x⟩
    · simp only [if_neg nothing] at within ⊢
      have safe := blockPasses_safe_iff (fun readed => decide (readed < transferLen)) rest
      constructor
      · rintro ⟨_, passes, _, made, holds⟩
        exact ⟨seeks, fun x comes => (safe.mp ⟨passes, made, holds⟩ x comes).2⟩
      · rintro ⟨_, noShort⟩
        obtain ⟨passes, made, holds⟩ := safe.mpr fun x comes => ⟨sends_fits _ comes, noShort x comes⟩
        refine ⟨turns, passes, within.trans ?_, made, holds⟩
        exact congrArg (fun passes => some (Option.map callsOf passes)) made
  · refine iff_of_false ?_ fun all => seeks all.1
    rintro ⟨turns, passes, within, _⟩
    rw [sendTurns, not_ended seeks (decide_eq_false (by decide)), Option.map_none] at within
    cases within

end Naruto.Replication
