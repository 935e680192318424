import Naruto.Replication.ReplicaLink
import Naruto.Utils.PackCursor

/-!
# The read loops, turn by turn

`loadFile` and `onSendIncrToSlave` read a file in one and the same loop, but for the sender's
leaving it when it has read enough. The loop asks the stream whether it has met the end of
the file, and nothing else. A `seekg` that the system refuses sets `failbit` alone: from then
on every read delivers no byte, and the end of the file is never met. So the loop is modelled
with a number of turns that it may take, and whether it ends is a matter of proof. Behind a
`seekg` that goes well it ends with what the plain recursion on the unread bytes gives.
-/

namespace Naruto.Replication

open Naruto.Utils Naruto.Utils.File

/-- A `std::ifstream`: the bytes behind its position, and two of its state bits. -/
structure InStream where
  rest : List UInt8
  eofbit : Bool
  failbit : Bool
deriving DecidableEq, Repr

namespace InStream

/-- Whether the system takes an offset: none that is negative, or beyond the largest offset
of the file system. -/
def Seeks (limit : Nat) (offset : Int64) : Prop := 0 ≤ offset.toInt ∧ offset.toInt ≤ limit

/-- Whether the system takes an offset can be decided. -/
instance (limit : Nat) (offset : Int64) : Decidable (Seeks limit offset) :=
  inferInstanceAs (Decidable (_ ∧ _))

/-- `seekg(offset, std::ios::beg)` on a stream that is good and at its beginning. -/
def seekg (limit : Nat) (contents : List UInt8) (offset : Int64) : InStream :=
  if Seeks limit offset then ⟨contents.drop offset.toInt.toNat, false, false⟩ else ⟨contents, false, true⟩

/-- `peek()`: a stream that is not good is left alone, and one without another byte has met
the end of the file. -/
def peek (f : InStream) : InStream :=
  if f.eofbit ∨ f.failbit then f else { f with eofbit := f.rest.isEmpty }

/-- `read(buf, n)`, with the bytes that `gcount` counts. -/
def read (f : InStream) (n : Nat) : InStream × List UInt8 :=
  if f.eofbit ∨ f.failbit then ({ f with failbit := true }, [])
  else if f.rest.length < n then (⟨[], true, true⟩, f.rest)
  else (⟨f.rest.drop n, false, false⟩, f.rest.take n)

/-- A failed stream delivers nothing, and stays as it is. -/
theorem read_failed (rest : List UInt8) (n : Nat) :
    (InStream.mk rest false true).read n = (⟨rest, false, true⟩, []) := by
  simp [read]

/-- A good stream delivers a block, and has met the end of the file when the block is short. -/
theorem read_good (rest : List UInt8) (n : Nat) :
    ∃ f : InStream, (InStream.mk rest false false).read n = (f, rest.take n) ∧
      (rest.length < n → f.eofbit = true) ∧ (n ≤ rest.length → f = ⟨rest.drop n, false, false⟩) := by
  by_cases short : rest.length < n
  · refine ⟨⟨[], true, true⟩, ?_, fun _ => rfl, fun full => absurd short (Nat.not_lt.mpr full)⟩
    simp [read, short, List.take_of_length_le (Nat.le_of_lt short)]
  · exact ⟨⟨rest.drop n, false, false⟩, by simp [read, short], fun less => absurd less short, fun _ => rfl⟩

/-- Where the loop begins behind a `seekg` that goes well. -/
theorem peek_seekg {limit : Nat} {offset : Int64} (seeks : Seeks limit offset) (contents : List UInt8) :
    (seekg limit contents offset).peek =
      ⟨contents.drop offset.toInt.toNat, (contents.drop offset.toInt.toNat).isEmpty, false⟩ := by
  simp only [seekg, if_pos seeks, peek, Bool.false_eq_true, or_self, ↓reduceIte]

/-- And behind one that does not. -/
theorem peek_refused {limit : Nat} {offset : Int64} (refused : ¬ Seeks limit offset) (contents : List UInt8) :
    (seekg limit contents offset).peek = ⟨contents, false, true⟩ := by
  simp only [seekg, if_neg refused, peek, or_true, ↓reduceIte]

end InStream

/-- The `while` loop for some turns, with the bytes read so far: nothing when it has not ended
within them, and nothing inside when a copy into the buffer is undefined. It also ends when
`enough` bytes are read. -/
def readTurns (enough : Nat → Bool) : Nat → InStream → Nat → Bytes → Option (Option Sending)
  | 0, _, _, _ => none
  | turns + 1, f, readed, buffer =>
    if f.eofbit then some (some ⟨true, readed, buffer, []⟩)
    else
      let block := f.read blockSize
      match buffer.putBytes block.2 with
      | none => some none
      | some buffer =>
        let readed := readed + block.2.length
        let inner := packLoop buffer
        if enough readed then some (some ⟨block.1.eofbit, readed, inner.1, inner.2⟩)
        else (readTurns enough turns block.1 readed inner.1).map fun later =>
          later.map fun sending => { sending with calls := inner.2 ++ sending.calls }

/-- `loadFile(filename, offset, f)` on a file that can be opened: the calls of `f`. The offset
is unsigned, and `seekg` takes it for a signed one. -/
def loadFileTurns (limit turns : Nat) (contents : List UInt8) (offset : UInt64) : Option (Option (List Call)) :=
  (readTurns (fun _ => false) turns (InStream.seekg limit contents offset.toInt64).peek 0 Bytes.cleared).map
    fun sending => sending.map Sending.calls

/-- The loop of `onSendIncrToSlave` on a file that is not empty: the packets it collects. -/
def sendTurns (limit turns : Nat) (contents : List UInt8) (replAofOff : Int64) : Option (Option (List Call)) :=
  (readTurns (fun readed => decide (transferLen ≤ readed)) turns (InStream.seekg limit contents replAofOff).peek 0
    Bytes.cleared).map fun sending => sending.map Sending.calls

/-- The packets that some passes take. -/
def callsOf (passes : List Bytes) : List Call := passes.filterMap fun bytes => (nextPack bytes).2

/-- An empty buffer takes no bytes, and has no packet. -/
theorem cleared_idle : Bytes.cleared.putBytes [] = some Bytes.cleared ∧ packLoop Bytes.cleared = (Bytes.cleared, []) := by
  have idle := nextPack_idle [] 0 (by decide) (by decide) (by decide)
  rw [Bytes.cleared_eq]
  exact ⟨Bytes.putBytes_filled [] [] 0 (by decide), packLoop_stop _ _ idle⟩

/-- On a failed stream the loop does not end as long as nothing is enough. By induction on
its turns: each finds the same stream and an empty buffer. -/
theorem readTurns_failed {enough : Nat → Bool} (nothing : enough 0 = false) (turns : Nat) (rest : List UInt8) :
    readTurns enough turns ⟨rest, false, true⟩ 0 Bytes.cleared = none := by
  induction turns with
  | zero => rfl
  | succ turns ih =>
    obtain ⟨wrote, idle⟩ := cleared_idle
    simp only [readTurns, InStream.read_failed, wrote, idle, ih, nothing, List.length_nil, Nat.add_zero,
      Bool.false_eq_true, ↓reduceIte, Option.map_none]

/-- A turn that reads a block into the buffer. -/
theorem readTurns_block (enough : Nat → Bool) (turns : Nat) {rest chunk : List UInt8} {f : InStream} (readed : Nat)
    {buffer buffer' : Bytes} (read : (InStream.mk rest false false).read blockSize = (f, chunk))
    (wrote : buffer.putBytes chunk = some buffer') :
    readTurns enough (turns + 1) ⟨rest, false, false⟩ readed buffer =
      if enough (readed + chunk.length) then
        some (some ⟨f.eofbit, readed + chunk.length, (packLoop buffer').1, (packLoop buffer').2⟩)
      else (readTurns enough turns f (readed + chunk.length) (packLoop buffer').1).map fun later =>
        later.map fun sending => { sending with calls := (packLoop buffer').2 ++ sending.calls } := by
  simp only [readTurns, read, wrote, Bool.false_eq_true, ↓reduceIte]

/-- A turn behind the last block. -/
theorem readTurns_ended (enough : Nat → Bool) (turns : Nat) {f : InStream} (ended : f.eofbit = true) (readed : Nat)
    (buffer : Bytes) : readTurns enough (turns + 1) f readed buffer = some (some ⟨true, readed, buffer, []⟩) := by
  simp only [readTurns, ended, ↓reduceIte]

/-- On a good stream it ends within some turns, with what its passes over the blocks take. The
induction is on the unread bytes: a turn reads a block, and when that was the last one the
next turn only sees the end. -/
theorem readTurns_good (enough : Nat → Bool) (rest : List UInt8) (readed : Nat) (buffer : Bytes) :
    ∃ turns, (readTurns enough turns ⟨rest, false, false⟩ readed buffer).map (Option.map Sending.calls) =
      some ((blockPasses (fun readed => !enough readed) rest readed buffer).map callsOf) := by
  induction left : rest.length using Nat.strong_induction_on generalizing rest readed buffer with
  | h n ih =>
    obtain ⟨f, read, ended, more⟩ := InStream.read_good rest blockSize
    rw [blockPasses]
    cases wrote : buffer.putBytes (rest.take blockSize) with
    | none => exact ⟨1, by simp [readTurns, read, wrote]⟩
    | some buffer' =>
      have turn := fun turns => readTurns_block enough turns readed read wrote
      simp only [Option.bind_eq_bind, Option.bind_some]
      by_cases stops : enough (readed + (rest.take blockSize).length) = true
      · refine ⟨1, ?_⟩
        rw [turn, if_pos stops, if_pos (.inr (by rw [stops]; rfl)), Option.map_some, Option.map_some, Option.map_some,
          packLoop_passes]
        rfl
      · have goes : ¬ (!enough (readed + (rest.take blockSize).length)) = false := by simpa using stops
        by_cases last : rest.length < blockSize
        · refine ⟨2, ?_⟩
          rw [turn, if_neg stops, if_pos (.inl last), readTurns_ended _ _ (ended last), Option.map_some,
            Option.map_some, Option.map_some, Option.map_some, packLoop_passes, List.append_nil]
          rfl
        · have positive : 0 < blockSize := by decide
          have shorter : (rest.drop blockSize).length < n := by
            rw [List.length_drop]
            omega
          obtain ⟨turns, later⟩ := ih _ shorter (rest.drop blockSize) (readed + (rest.take blockSize).length)
            (packLoop buffer').1 rfl
          refine ⟨turns + 1, ?_⟩
          rw [turn, if_neg stops, if_neg (not_or.mpr ⟨last, goes⟩), more (Nat.not_lt.mp last)]
          obtain ⟨result, within, calls⟩ := Option.map_eq_some_iff.mp later
          rw [within, Option.map_some, Option.map_some, Option.some_inj, Option.map_map]
          cases passes : blockPasses (fun readed => !enough readed) (rest.drop blockSize)
              (readed + (rest.take blockSize).length) (packLoop buffer').1 with
          | none =>
            rw [passes, Option.map_none] at calls
            rw [Option.map_eq_none_iff.mp calls]
            rfl
          | some passes' =>
            rw [passes, Option.map_some] at calls
            obtain ⟨sending, rfl, taken⟩ := Option.map_eq_some_iff.mp calls
            simp only [Option.map_some, Function.comp_apply, Option.bind_some]
            rw [taken, packLoop_passes, callsOf, callsOf, List.filterMap_append]

end Naruto.Replication
