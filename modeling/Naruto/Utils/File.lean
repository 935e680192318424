import Naruto.Utils.PackLoop

/-!
# Reading packet files

`File::loadFile` reads a file from an offset in blocks of 4096 bytes, appends
each block to one growing buffer, and runs the packet loop after every block.
The buffer and its read position survive from one block to the next, so a block
that ends inside a packet matters: the packet loop has then moved past the
length word, and the next pass takes the flag and the type for a length.

Decoding is exact when no block ends more than four bytes inside a packet. The
only such end that does no harm lies in a torn last packet of which at most
eight bytes are there.
-/

namespace Naruto.Utils

namespace File

/-- `sizeof(buf)` in `loadFile` and in `onSendIncrToSlave`. -/
def blockSize : Nat := 4096

/-- The outer loop of `loadFile` with `rest` still to be read: the calls it makes,
in order, or nothing when a copy into the buffer is undefined. A block shorter
than the buffer has met the end of the file; a full one is followed by another
read even if that read is empty. -/
def loadLoop (rest : List UInt8) (bytes : Bytes) : Option (List Call) := do
  let bytes ← bytes.putBytes (rest.take blockSize)
  let inner := packLoop bytes
  if rest.length < blockSize then some inner.2
  else do
    let later ← loadLoop (rest.drop blockSize) inner.1
    some (inner.2 ++ later)
termination_by rest.length
decreasing_by
  have positive : 0 < blockSize := by decide
  rw [List.length_drop]
  omega

/-- `loadFile(filename, offset, f)`: the calls of `f`, for an offset that `seekg`
takes. A file that cannot be opened, or has no byte at the offset, makes none. -/
def loadFile (file : Option (List UInt8)) (offset : Nat) : Option (List Call) :=
  match file with
  | none => some []
  | some contents =>
    if contents.drop offset = [] then some [] else loadLoop (contents.drop offset) Bytes.cleared

/-- No block end of the layout lies more than four bytes inside a packet, unless
that packet is torn and at most eight of its bytes are there. Positions count
from the first packet; blocks end at `phase` and every 4096 bytes behind it,
and `n` bytes are there. -/
def BlocksFit (phase n : Nat) (ps : List Pack) : Prop :=
  ∀ qs p rs, ps = qs ++ p :: rs → ∀ blocks, 0 < blocks →
    (Pack.encodeAll qs).length + 4 < phase + blockSize * blocks →
    phase + blockSize * blocks < (Pack.encodeAll qs).length + p.size →
    phase + blockSize * blocks ≤ n →
    n < (Pack.encodeAll qs).length + p.size ∧ n ≤ (Pack.encodeAll qs).length + 8

/-- The place of a packet relative to a split of the list: it ends before the
split, or lies behind it. -/
theorem place_of_split (front back qs rs : List Pack) (p : Pack) (same : front ++ back = qs ++ p :: rs) :
    (Pack.encodeAll qs).length + p.size ≤ (Pack.encodeAll front).length ∨
      ∃ qs', qs = front ++ qs' ∧ back = qs' ++ p :: rs := by
  rcases List.append_eq_append_iff.mp same with ⟨qs', longer, behind⟩ | ⟨tail, shorter, before⟩
  · exact Or.inr ⟨qs', longer, behind⟩
  · cases tail with
    | nil => exact Or.inr ⟨[], by simpa using shorter.symm, by simpa using before.symm⟩
    | cons q tail =>
      obtain ⟨rfl, _⟩ := List.cons.inj before
      refine Or.inl ?_
      rw [shorter, Pack.encodeAll_append, Pack.encodeAll_cons, List.length_append, List.length_append,
        Pack.serialize_length]
      omega

/-- A layout that ends before its first block end is fit. -/
theorem BlocksFit.of_short (phase n : Nat) (ps : List Pack) (short : n < phase + blockSize) :
    BlocksFit phase n ps := by
  intro qs p rs _ blocks positive _ _ reached
  have least : blockSize * 1 ≤ blockSize * blocks := Nat.mul_le_mul_left _ positive
  omega

/-- When a block end lies at most four bytes behind a boundary, the layout is fit
exactly when what follows the boundary is. -/
theorem blocksFit_step (front back : List Pack) (phase n : Nat)
    (behind : (Pack.encodeAll front).length ≤ phase + blockSize)
    (near : phase + blockSize ≤ (Pack.encodeAll front).length + 4)
    (inside : phase + blockSize ≤ n) :
    BlocksFit phase n (front ++ back) ↔
      BlocksFit (phase + blockSize - (Pack.encodeAll front).length)
        (n - (Pack.encodeAll front).length) back := by
  constructor
  · intro fit qs p rs split blocks positive after before reached
    have place := fit (front ++ qs) p rs (by rw [split, List.append_assoc]) (blocks + 1) (Nat.succ_pos _)
    rw [Pack.encodeAll_append, List.length_append, Nat.mul_add, Nat.mul_one] at place
    have := place (by omega) (by omega) (by omega)
    omega
  · intro fit qs p rs split blocks positive after before reached
    obtain ⟨count, rfl⟩ : ∃ count, blocks = count + 1 := ⟨blocks - 1, by omega⟩
    rw [Nat.mul_add, Nat.mul_one] at after before reached
    rcases place_of_split front back qs rs p split with ended | ⟨qs', rfl, later⟩
    · omega
    · rw [Pack.encodeAll_append, List.length_append] at after before ⊢
      have more : 0 < count := by
        refine Nat.pos_of_ne_zero fun zero => ?_
        subst zero
        omega
      have := fit qs' p rs later count more (by omega) (by omega) (by omega)
      omega

/-- When a block end lies more than four bytes inside a packet, the layout is fit
exactly when that packet is torn and at most eight bytes of it are there. -/
theorem blocksFit_divided (front back : List Pack) (p : Pack) (phase n : Nat)
    (after : (Pack.encodeAll front).length + 4 < phase + blockSize)
    (before : phase + blockSize < (Pack.encodeAll front).length + p.size)
    (inside : phase + blockSize ≤ n) :
    BlocksFit phase n (front ++ p :: back) ↔
      n < (Pack.encodeAll front).length + p.size ∧ n ≤ (Pack.encodeAll front).length + 8 := by
  constructor
  · intro fit
    have place := fit front p back rfl 1 Nat.one_pos
    rw [Nat.mul_one] at place
    exact place after before inside
  · intro torn qs q rs split blocks positive after' before' reached
    have least : blockSize * 1 ≤ blockSize * blocks := Nat.mul_le_mul_left _ positive
    rcases place_of_split front (p :: back) qs rs q split with ended | ⟨qs', rfl, later⟩
    · omega
    · cases qs' with
      | nil =>
        obtain ⟨rfl, _⟩ := List.cons.inj later
        rw [List.append_nil]
        exact torn
      | cons q' qs' =>
        obtain ⟨rfl, _⟩ := List.cons.inj later
        rw [Pack.encodeAll_append, Pack.encodeAll_cons, List.length_append, List.length_append,
          Pack.serialize_length] at after'
        omega

/-- The state of the outer loop on a packet boundary: `held` is the unread part
of the buffer and `rest` the unread part of the file, together the beginning of
the packets still to come. -/
structure Resumes (held rest : List UInt8) (ps : List Pack) : Prop where
  stream : held ++ rest = (Pack.encodeAll ps).take (held.length + rest.length)
  enough : held.length + rest.length ≤ (Pack.encodeAll ps).length

/-- One block: after it is appended, the packet loop takes the packets that are
now whole and stops behind them. -/
theorem Resumes.block {held rest : List UInt8} {ps : List Pack} (resumes : Resumes held rest ps)
    (before : List UInt8) (count : Nat) (short : count ≤ rest.length)
    (room : before.length + (held.length + count) < 2 ^ 32) :
    packLoop (Bytes.filled (before ++ held ++ rest.take count) before.length) =
      (Bytes.filled (before ++ held ++ rest.take count)
          (stopAt (before ++ held ++ rest.take count)
            (before.length + (Pack.encodeAll (Pack.whole (held.length + count) ps)).length)),
        (Pack.whole (held.length + count) ps).map Pack.call) := by
  have taken : (rest.take count).length = count := List.length_take_of_le short
  have total : (before ++ held ++ rest.take count).length = before.length + (held.length + count) := by
    simp only [List.length_append, taken, Nat.add_assoc]
  have unread : (before ++ held ++ rest.take count).length - before.length = held.length + count := by
    rw [total, Nat.add_sub_cancel_left]
  have reads : Reads (before ++ held ++ rest.take count) before.length (Pack.encodeAll ps) := by
    refine ⟨by rw [total]; exact room, by rw [total]; exact Nat.le_add_right _ _, ?_⟩
    have fewer : min (held.length + count) (held.length + rest.length) = held.length + count :=
      Nat.min_eq_left (Nat.add_le_add_left short _)
    rw [unread, List.append_assoc, List.drop_left, ← fewer, ← List.take_take, ← resumes.stream,
      List.take_length_add_append]
  have spec := packLoop_spec ps _ _ reads
    (by rw [unread]; exact Nat.le_trans (Nat.add_le_add_left short _) resumes.enough)
  rw [unread] at spec
  exact spec

/-- Behind the packets `front` the loop is again on a boundary, with the bytes of the buffer
behind it held. The block brings the bytes behind the boundary, and those that are whole
packets are taken. -/
theorem Resumes.next {held rest : List UInt8} {front back : List Pack}
    (resumes : Resumes held rest (front ++ back)) (count : Nat) (short : count ≤ rest.length)
    (behind : (Pack.encodeAll front).length ≤ held.length + count) :
    ∃ held', held'.length = held.length + count - (Pack.encodeAll front).length ∧
      held ++ rest.take count = Pack.encodeAll front ++ held' ∧
      Resumes held' (rest.drop count) back := by
  have stream := resumes.stream
  have enough := resumes.enough
  rw [Pack.encodeAll_append, List.length_append] at enough
  have whole : held ++ rest = Pack.encodeAll front ++
      (Pack.encodeAll back).take (held.length + rest.length - (Pack.encodeAll front).length) := by
    rw [stream, Pack.encodeAll_append, List.take_append, List.take_of_length_le (by omega)]
  have split : held ++ rest.take count ++ rest.drop count = held ++ rest := by
    rw [List.append_assoc, List.take_append_drop]
  have length : (held ++ rest.take count).length = held.length + count := by
    rw [List.length_append, List.length_take_of_le short]
  obtain ⟨held', same⟩ : ∃ held', held ++ rest.take count = Pack.encodeAll front ++ held' := by
    have isPrefix : Pack.encodeAll front <+: held ++ rest.take count := by
      have front' : Pack.encodeAll front <+: held ++ rest := ⟨_, whole.symm⟩
      have taken : held ++ rest.take count <+: held ++ rest := ⟨_, split⟩
      exact List.prefix_of_prefix_length_le front' taken (by rw [length]; exact behind)
    obtain ⟨held', same⟩ := isPrefix
    exact ⟨held', same.symm⟩
  have heldLength : held'.length = held.length + count - (Pack.encodeAll front).length := by
    have total := congrArg List.length same
    rw [length, List.length_append] at total
    omega
  refine ⟨held', heldLength, same, ?_, ?_⟩
  · have tail : held' ++ rest.drop count =
        (Pack.encodeAll back).take (held.length + rest.length - (Pack.encodeAll front).length) := by
      have joined : Pack.encodeAll front ++ (held' ++ rest.drop count) = Pack.encodeAll front ++
          (Pack.encodeAll back).take (held.length + rest.length - (Pack.encodeAll front).length) := by
        rw [← whole, ← split, same, List.append_assoc]
      exact List.append_cancel_left joined
    rw [tail, heldLength, List.length_drop]
    congr 1
    omega
  · rw [heldLength, List.length_drop]
    omega

/-- Where the pass behind a full block leaves the loop: the packets that are whole now are
taken, and it stands behind them, or behind the length word of the packet that the
block end divides. -/
theorem Resumes.pass {held rest : List UInt8} {ps : List Pack} (resumes : Resumes held rest ps)
    (before : List UInt8) (full : blockSize ≤ rest.length)
    (room : before.length + (held.length + blockSize) < 2 ^ 32) :
    ∃ taken back held', ps = taken ++ back ∧
      held.length + blockSize = (Pack.encodeAll taken).length + held'.length ∧
      (∀ p later, back = p :: later → held'.length < p.size) ∧
      Resumes held' (rest.drop blockSize) back ∧
      packLoop (Bytes.filled (before ++ held ++ rest.take blockSize) before.length) =
        (Bytes.filled (before ++ Pack.encodeAll taken ++ held')
            ((before ++ Pack.encodeAll taken).length + if 4 < held'.length then 4 else 0),
          taken.map Pack.call) := by
  have block := resumes.block before blockSize full room
  obtain ⟨back, split, behind, next⟩ := Pack.whole_split (held.length + blockSize) ps
  generalize Pack.whole (held.length + blockSize) ps = taken at block split behind next
  subst split
  obtain ⟨held', heldLength, same, resumes'⟩ := resumes.next blockSize full behind
  have regroup : before ++ held ++ rest.take blockSize = before ++ Pack.encodeAll taken ++ held' := by
    rw [List.append_assoc, same, ← List.append_assoc]
  have unread : (before ++ Pack.encodeAll taken ++ held').length -
      (before.length + (Pack.encodeAll taken).length) = held'.length := by
    rw [List.length_append, List.length_append, Nat.add_sub_cancel_left]
  refine ⟨taken, back, held', rfl, by omega, fun p later first => ?_, resumes', ?_⟩
  · have divided := next p later first
    omega
  · rw [block, regroup, stopAt, unread, List.length_append]
    split <;> rfl

/-- What the loop returns begins with the calls made after its first block. The other blocks
come behind it. -/
theorem loadLoop_first (rest : List UInt8) (bytes : Bytes) (calls : List Call)
    (loaded : loadLoop rest bytes = some calls) :
    ∃ bytes', bytes.putBytes (rest.take blockSize) = some bytes' ∧ (packLoop bytes').2 <+: calls := by
  rw [loadLoop] at loaded
  cases written : bytes.putBytes (rest.take blockSize) with
  | none =>
    rw [written] at loaded
    exact absurd loaded (by simp)
  | some bytes' =>
    refine ⟨bytes', rfl, ?_⟩
    simp only [written, Option.bind_eq_bind, Option.bind_some] at loaded
    split at loaded
    · exact ⟨[], by rw [List.append_nil]; exact Option.some.inj loaded⟩
    · cases later : loadLoop (rest.drop blockSize) (packLoop bytes').1 with
      | none =>
        rw [later] at loaded
        exact absurd loaded (by simp)
      | some more =>
        rw [later] at loaded
        exact ⟨more, Option.some.inj loaded⟩

/-- The last block, with at most a length word unread after it, makes no call. -/
theorem loadLoop_idle (rest buf : List UInt8) (r : Nat) (last : rest.length < blockSize)
    (room : buf.length + rest.length < 2 ^ 32) (inside : r ≤ buf.length + rest.length)
    (few : buf.length + rest.length - r ≤ 4) : loadLoop rest (Bytes.filled buf r) = some [] := by
  have whole : rest.take blockSize = rest := List.take_of_length_le (Nat.le_of_lt last)
  have total : (buf ++ rest).length = buf.length + rest.length := List.length_append
  have idle := nextPack_idle (buf ++ rest) r (by rw [total]; exact room) (by rw [total]; exact inside)
    (by rw [total]; exact few)
  rw [loadLoop, whole, Bytes.putBytes_filled buf rest r room]
  simp only [Option.bind_eq_bind, Option.bind_some, last, ↓reduceIte, packLoop_stop _ _ idle]

/-- The packets whose flag and type, taken for a length word, read four. -/
def Misleading (ps : List Pack) : Prop := ∀ p ∈ ps, p.flag = 4 ∧ p.type = 0

/-- Standing behind the length word of a misleading packet with more than a word unread, the
loop makes a call with a body of 4 GiB less four bytes. The word is taken from the middle of
the packet, and the difference with the header's length wraps. -/
theorem loadLoop_misled (rest before held stream : List UInt8) (p : Pack) (calls : List Call)
    (flag : p.flag = 4) (type : p.type = 0)
    (there : held ++ rest = (p.serialize ++ stream).take (held.length + rest.length))
    (room : before.length + held.length < 2 ^ 32)
    (more : 8 < held.length + (rest.take blockSize).length)
    (loaded : loadLoop rest (Bytes.filled (before ++ held) (before.length + 4)) = some calls) :
    ∃ call ∈ calls, call.msg.length = 2 ^ 32 - 4 := by
  obtain ⟨bytes', written, made⟩ := loadLoop_first rest _ calls loaded
  have bound : (before ++ held).length + (rest.take blockSize).length < 2 ^ 32 := by
    by_contra full
    have fails := Bytes.putBytes_overflows (before ++ held) (rest.take blockSize) (before.length + 4)
      (by rw [List.length_append]; exact room) (Nat.not_lt.mp full)
    rw [fails] at written
    exact absurd written (by simp)
  have filled := Bytes.putBytes_filled (before ++ held) (rest.take blockSize) (before.length + 4) bound
  obtain rfl := Option.some.inj (filled.symm.trans written)
  have chunk : (rest.take blockSize).length ≤ rest.length := List.length_take_le' _ _
  have total : (before ++ held ++ rest.take blockSize).length =
      before.length + (held.length + (rest.take blockSize).length) := by
    simp only [List.length_append, Nat.add_assoc]
  have reads : Reads (before ++ held ++ rest.take blockSize) before.length (p.serialize ++ stream) := by
    refine ⟨by rw [total]; simpa [List.length_append, Nat.add_assoc] using bound,
      by rw [total]; exact Nat.le_add_right _ _, ?_⟩
    have fewer : min (held.length + (rest.take blockSize).length) (held.length + rest.length) =
        held.length + (rest.take blockSize).length := Nat.min_eq_left (Nat.add_le_add_left chunk _)
    have same : rest.take (rest.take blockSize).length = rest.take blockSize := by
      rw [List.length_take]
      rcases Nat.le_total blockSize rest.length with long | short
      · rw [Nat.min_eq_left long]
      · rw [Nat.min_eq_right short, List.take_of_length_le (Nat.le_refl _), List.take_of_length_le short]
    rw [total, Nat.add_sub_cancel_left, List.append_assoc, List.drop_left, ← fewer, ← List.take_take,
      ← there, List.take_length_add_append, same]
  have word : (Bytes.filled (before ++ held ++ rest.take blockSize) (before.length + 4)).readAt 4
      (UInt32.ofNat (before.length + 4)) = 4 := by
    rw [reads.word (before.length + 4) 4 4 (by omega)]
    rw [p.second_word stream, flag, type]
    rfl
  obtain ⟨left, call, taken, long⟩ := nextPack_short _ (before.length + 4) reads.fits (by omega) (by omega) word
  refine ⟨call, ?_, long⟩
  rw [packLoop_take _ _ _ taken] at made
  exact made.subset List.mem_cons_self

/-- The whole packets among those of a longer list, behind the ones already taken. -/
theorem whole_behind (n : Nat) (front back : List Pack) (room : (Pack.encodeAll front).length ≤ n) :
    (Pack.whole n (front ++ back)).map Pack.call = front.map Pack.call ++
      (Pack.whole (n - (Pack.encodeAll front).length) back).map Pack.call := by
  rw [Pack.whole_append n front back room, List.map_append]

/-- A loop that returns has had room for its first block. -/
theorem loadLoop_room (rest buf : List UInt8) (r : Nat) (calls : List Call) (fits : buf.length < 2 ^ 32)
    (loaded : loadLoop rest (Bytes.filled buf r) = some calls) :
    buf.length + (rest.take blockSize).length < 2 ^ 32 := by
  by_contra past
  obtain ⟨bytes', wrote, _⟩ := loadLoop_first _ _ _ loaded
  rw [Bytes.putBytes_overflows _ _ _ fits (Nat.not_lt.mp past)] at wrote
  exact absurd wrote (by simp)

/-- The last block: one pass of the packet loop decides, when the buffer has room for it.
Without room the copy into the buffer is undefined. -/
theorem loadLoop_end (before held rest : List UInt8) (ps : List Pack) (resumes : Resumes held rest ps)
    (last : rest.length < blockSize) (start : before.length + held.length < 2 ^ 32) :
    (before.length + (held.length + rest.length) < 2 ^ 32 →
      loadLoop rest (Bytes.filled (before ++ held) before.length) =
        some ((Pack.whole (held.length + rest.length) ps).map Pack.call)) ∧
    ∀ calls, loadLoop rest (Bytes.filled (before ++ held) before.length) = some calls →
      before.length + (held.length + rest.length) < 2 ^ 32 := by
  have startLength : (before ++ held).length = before.length + held.length := List.length_append
  have all : rest.take blockSize = rest := List.take_of_length_le (Nat.le_of_lt last)
  constructor
  · intro room
    have block := resumes.block before rest.length (Nat.le_refl _) room
    rw [List.take_length] at block
    have written := Bytes.putBytes_filled (before ++ held) rest before.length (by omega)
    rw [loadLoop, all, written]
    simp only [Option.bind_eq_bind, Option.bind_some, last, ↓reduceIte, block]
  · intro calls loaded
    have room := loadLoop_room rest (before ++ held) before.length calls (by omega) loaded
    rw [all] at room
    omega

/-- Behind the length word of a packet that the block end divides. When the packet is torn
and at most four bytes of it are unread, the rest of the file makes no call. A misleading
packet is such a one when the calls are those of the whole packets: else the loop would
have called back with a wrapped body size. -/
theorem loadLoop_divided (before held rest : List UInt8) (p : Pack) (later : List Pack)
    (resumes : Resumes held rest (p :: later)) (start : before.length + held.length < 2 ^ 32)
    (after : 4 < held.length) (inside : held.length < p.size) :
    (held.length + rest.length < p.size ∧ held.length + rest.length ≤ 8 ∧
        before.length + (held.length + rest.length) < 2 ^ 32 →
      loadLoop rest (Bytes.filled (before ++ held) (before.length + 4)) =
        some ((Pack.whole (held.length + rest.length) (p :: later)).map Pack.call)) ∧
    (p.flag = 4 ∧ p.type = 0 →
      loadLoop rest (Bytes.filled (before ++ held) (before.length + 4)) =
        some ((Pack.whole (held.length + rest.length) (p :: later)).map Pack.call) →
      held.length + rest.length < p.size ∧ held.length + rest.length ≤ 8 ∧
        before.length + (held.length + rest.length) < 2 ^ 32) := by
  have bufLength : (before ++ held).length = before.length + held.length := List.length_append
  have width : blockSize = 4096 := rfl
  constructor
  · rintro ⟨torn, few, bound⟩
    have nothing : Pack.whole (held.length + rest.length) (p :: later) = [] := by
      rw [Pack.whole]
      exact if_neg (by omega)
    rw [nothing]
    exact loadLoop_idle rest (before ++ held) (before.length + 4) (by omega) (by omega) (by omega) (by omega)
  · rintro ⟨flag, type⟩ loaded
    have few : held.length + rest.length ≤ 8 := by
      by_contra many
      have more : 8 < held.length + (rest.take blockSize).length := by
        rw [List.length_take]
        omega
      obtain ⟨call, made, long⟩ := loadLoop_misled rest before held (Pack.encodeAll later) p _ flag type
        resumes.stream start more loaded
      obtain ⟨q, _, rfl⟩ := List.mem_map.mp made
      have bound := q.fits
      have body : q.call.msg.length = q.body.length := rfl
      omega
    have room := loadLoop_room rest (before ++ held) (before.length + 4) _ (by omega) loaded
    rw [List.take_of_length_le (by omega)] at room
    refine ⟨?_, few, by omega⟩
    by_contra there
    have idle := loadLoop_idle rest (before ++ held) (before.length + 4) (by omega) room (by omega) (by omega)
    have nothing := Option.some.inj (loaded.symm.trans idle)
    rw [Pack.whole, if_pos (by omega)] at nothing
    exact absurd nothing (by simp)

/-- The loop over a full block: the packets that the block completes come first, and the loop
goes on behind them with the bytes that are left, or behind the length word of a packet that
the block end divides. -/
theorem loadLoop_pass (before held rest : List UInt8) (ps : List Pack) (resumes : Resumes held rest ps)
    (full : blockSize ≤ rest.length) (room : before.length + (held.length + blockSize) < 2 ^ 32) :
    ∃ front back held', ps = front ++ back ∧ held.length + blockSize = (Pack.encodeAll front).length + held'.length ∧
      (∀ p later, back = p :: later → held'.length < p.size) ∧ Resumes held' (rest.drop blockSize) back ∧
      ∀ calls, loadLoop rest (Bytes.filled (before ++ held) before.length) = some (front.map Pack.call ++ calls) ↔
        loadLoop (rest.drop blockSize) (Bytes.filled (before ++ Pack.encodeAll front ++ held')
          ((before ++ Pack.encodeAll front).length + if 4 < held'.length then 4 else 0)) = some calls := by
  have startLength : (before ++ held).length = before.length + held.length := List.length_append
  have chunk : (rest.take blockSize).length = blockSize := List.length_take_of_le full
  have written := Bytes.putBytes_filled (before ++ held) (rest.take blockSize) before.length (by omega)
  obtain ⟨front, back, held', split, sum, torn, resumes', pass⟩ := resumes.pass before full room
  refine ⟨front, back, held', split, sum, torn, resumes', fun calls => ?_⟩
  rw [loadLoop, written]
  simp only [Option.bind_eq_bind, Option.bind_some, Nat.not_lt.mpr full, ↓reduceIte, pass]
  cases loadLoop (rest.drop blockSize) _ <;> simp

/-- Exactness of the outer loop from a packet boundary, in both directions. A fit
layout below 4 GiB is decoded exactly; with misleading packets only such a layout
is. The induction is on the unread part of the file. After a full block the loop
is either on a boundary with at most four bytes held, where the induction
hypothesis applies to what follows, or behind the length word of a divided
packet. There a fit layout has no further packet and at most four unread bytes,
and a misleading packet makes the loop call back with a wrapped body size. -/
theorem loadLoop_spec (before held rest : List UInt8) (ps : List Pack) (resumes : Resumes held rest ps)
    (few : held.length ≤ 4) (start : before.length + held.length < 2 ^ 32) :
    (BlocksFit held.length (held.length + rest.length) ps ∧
        before.length + (held.length + rest.length) < 2 ^ 32 →
      loadLoop rest (Bytes.filled (before ++ held) before.length) =
        some ((Pack.whole (held.length + rest.length) ps).map Pack.call)) ∧
    (Misleading ps →
      loadLoop rest (Bytes.filled (before ++ held) before.length) =
        some ((Pack.whole (held.length + rest.length) ps).map Pack.call) →
      BlocksFit held.length (held.length + rest.length) ps ∧
        before.length + (held.length + rest.length) < 2 ^ 32) := by
  have startLength : (before ++ held).length = before.length + held.length := List.length_append
  by_cases last : rest.length < blockSize
  · have fit := BlocksFit.of_short held.length (held.length + rest.length) ps (by omega)
    obtain ⟨decodes, only⟩ := loadLoop_end before held rest ps resumes last start
    exact ⟨fun fits => decodes fits.2, fun _ loaded => ⟨fit, only _ loaded⟩⟩
  · have full : blockSize ≤ rest.length := Nat.not_lt.mp last
    have chunk : (rest.take blockSize).length = blockSize := List.length_take_of_le full
    have width : blockSize = 4096 := rfl
    by_cases room : before.length + (held.length + blockSize) < 2 ^ 32
    · obtain ⟨front, back, held', rfl, sum, torn, resumes', goesOn⟩ := loadLoop_pass before held rest ps resumes full room
      have wholeBytes : (before ++ Pack.encodeAll front).length =
          before.length + (Pack.encodeAll front).length := List.length_append
      have left : (rest.drop blockSize).length = rest.length - blockSize := List.length_drop
      have target := whole_behind (held.length + rest.length) front back (by omega)
      have remaining : held.length + rest.length - (Pack.encodeAll front).length =
          held'.length + (rest.drop blockSize).length := by omega
      rw [remaining] at target
      by_cases far : 4 < held'.length
      · -- Behind the length word of the packet that the block end divides.
        cases back with
        | nil =>
          have enough := resumes'.enough
          simp only [Pack.encodeAll_nil, List.length_nil] at enough
          omega
        | cons p later =>
          have divided := torn p later rfl
          have splits := blocksFit_divided front later p held.length (held.length + rest.length)
            (by omega) (by omega) (by omega)
          obtain ⟨decodes, only⟩ := loadLoop_divided (before ++ Pack.encodeAll front) held' (rest.drop blockSize) p later
            resumes' (by omega) far divided
          rw [target, goesOn, if_pos far, splits]
          refine ⟨fun fits => decodes ⟨by omega, by omega, by omega⟩, fun misleading loaded => ?_⟩
          obtain ⟨cut, few', bound⟩ := only (misleading p (List.mem_append_right _ List.mem_cons_self)) loaded
          exact ⟨⟨by omega, by omega⟩, by omega⟩
      · -- On a boundary with at most a length word held: the induction goes on.
        obtain ⟨decodes, only⟩ := loadLoop_spec (before ++ Pack.encodeAll front) held'
          (rest.drop blockSize) back resumes' (by omega) (by omega)
        have step := blocksFit_step front back held.length (held.length + rest.length)
          (by omega) (by omega) (by omega)
        rw [sum, Nat.add_sub_cancel_left, remaining] at step
        rw [target, goesOn, if_neg far, Nat.add_zero]
        refine ⟨fun fits => decodes ⟨step.mp fits.1, by omega⟩, fun misleading loaded => ?_⟩
        obtain ⟨fit, bound⟩ := only (fun p member => misleading p (List.mem_append_right _ member)) loaded
        exact ⟨step.mpr fit, by omega⟩
    · refine ⟨fun fits => absurd fits.2 (by omega), fun _ loaded => ?_⟩
      have bound := loadLoop_room rest (before ++ held) before.length _ (by omega) loaded
      omega
termination_by rest.length
decreasing_by
  rw [List.length_drop]
  omega

/-- The length of a stream depends on the sizes of its packets alone. -/
theorem encodeAll_length (ps : List Pack) : (Pack.encodeAll ps).length = (ps.map Pack.size).sum := by
  induction ps with
  | nil => rfl
  | cons p ps ih => rw [Pack.encodeAll_cons, List.length_append, Pack.serialize_length, ih, List.map_cons,
      List.sum_cons]

/-- So does being fit. It speaks of the sizes of the packets and of no other part of them. -/
theorem blocksFit_sizes (phase n : Nat) (ps ps' : List Pack) (sizes : ps'.map Pack.size = ps.map Pack.size)
    (fit : BlocksFit phase n ps) : BlocksFit phase n ps' := by
  intro qs' p' rs' split
  have front := congrArg (List.take qs'.length) sizes
  have back := congrArg (List.drop qs'.length) sizes
  rw [← List.map_take, ← List.map_take, split, List.take_left] at front
  rw [← List.map_drop, ← List.map_drop, split, List.drop_left, List.map_cons] at back
  cases rest : ps.drop qs'.length with
  | nil =>
    rw [rest] at back
    exact absurd back (by simp)
  | cons p rs =>
    rw [rest, List.map_cons] at back
    have size : p'.size = p.size := (List.cons.inj back).1
    have length : (Pack.encodeAll qs').length = (Pack.encodeAll (ps.take qs'.length)).length := by
      rw [encodeAll_length, encodeAll_length, front]
    rw [length, size]
    exact fit (ps.take qs'.length) p rs (by rw [← rest, List.take_append_drop])

/-- The bytes of a cut file behind an offset on a boundary. -/
def bytesBehind (pre ps : List Pack) (cut : Nat) : Nat :=
  min (cut - (Pack.encodeAll pre).length) (Pack.encodeAll ps).length

/-- The cut file behind the offset. -/
theorem drop_cut (pre ps : List Pack) (cut : Nat) :
    ((Pack.encodeAll (pre ++ ps)).take cut).drop (Pack.encodeAll pre).length =
      (Pack.encodeAll ps).take (cut - (Pack.encodeAll pre).length) := by
  rw [List.drop_take, Pack.encodeAll_append, List.drop_left]

/-- The packets within a number of bytes beyond the end are those within all bytes. -/
theorem whole_min (n : Nat) (ps : List Pack) :
    Pack.whole (min n (Pack.encodeAll ps).length) ps = Pack.whole n ps := by
  induction ps generalizing n with
  | nil => rfl
  | cons p ps ih =>
    rw [Pack.whole, Pack.whole, Pack.encodeAll_cons, List.length_append, Pack.serialize_length]
    by_cases fits : p.size ≤ n
    · have rest : min n (p.size + (Pack.encodeAll ps).length) - p.size =
          min (n - p.size) (Pack.encodeAll ps).length := by omega
      rw [if_pos fits, if_pos (by omega), rest, ih]
    · rw [if_neg fits, if_neg (by omega)]

/-- `loadFile` on a cut file is the outer loop on what lies behind the offset. -/
theorem loadFile_cut (pre ps : List Pack) (cut : Nat) :
    loadFile (some ((Pack.encodeAll (pre ++ ps)).take cut)) (Pack.encodeAll pre).length =
      loadLoop ((Pack.encodeAll ps).take (cut - (Pack.encodeAll pre).length)) (Bytes.filled [] 0) := by
  rw [loadFile]
  simp only [drop_cut]
  split
  · rename_i nothing
    rw [nothing, loadLoop_idle [] [] 0 (by decide) (by decide) (by decide) (by decide)]
  · rw [Bytes.cleared_eq]

/-- The state at the beginning of a cut file. -/
theorem resumes_cut (ps : List Pack) (n : Nat) : Resumes [] ((Pack.encodeAll ps).take n) ps := by
  constructor
  · rw [List.nil_append, List.length_nil, Nat.zero_add, List.length_take, List.take_eq_take_iff]
    omega
  · rw [List.length_nil, Nat.zero_add, List.length_take]
    exact Nat.min_le_right _ _

/-- `loadLoop_spec` for a cut file read from its offset. What lies behind the offset is the
beginning of the packets to come. -/
theorem loadFile_spec (pre ps : List Pack) (cut : Nat) :
    (BlocksFit 0 (bytesBehind pre ps cut) ps ∧ bytesBehind pre ps cut < 2 ^ 32 →
      loadFile (some ((Pack.encodeAll (pre ++ ps)).take cut)) (Pack.encodeAll pre).length =
        some ((Pack.whole (cut - (Pack.encodeAll pre).length) ps).map Pack.call)) ∧
    (Misleading ps →
      loadFile (some ((Pack.encodeAll (pre ++ ps)).take cut)) (Pack.encodeAll pre).length =
        some ((Pack.whole (cut - (Pack.encodeAll pre).length) ps).map Pack.call) →
      BlocksFit 0 (bytesBehind pre ps cut) ps ∧ bytesBehind pre ps cut < 2 ^ 32) := by
  have length : ((Pack.encodeAll ps).take (cut - (Pack.encodeAll pre).length)).length =
      bytesBehind pre ps cut := List.length_take
  have spec := loadLoop_spec [] [] ((Pack.encodeAll ps).take (cut - (Pack.encodeAll pre).length)) ps
    (resumes_cut ps _) (by decide) (by decide)
  simp only [List.length_nil, Nat.zero_add, length, List.append_nil] at spec
  have target := whole_min (cut - (Pack.encodeAll pre).length) ps
  rw [loadFile_cut, ← target]
  exact spec

/-- A fit layout below 4 GiB is loaded exactly: one call for each packet that
lies between the offset and the cut, in order. -/
theorem loadFile_fit (pre ps : List Pack) (cut : Nat) (fit : BlocksFit 0 (bytesBehind pre ps cut) ps)
    (bound : bytesBehind pre ps cut < 2 ^ 32) :
    loadFile (some ((Pack.encodeAll (pre ++ ps)).take cut)) (Pack.encodeAll pre).length =
      some ((Pack.whole (cut - (Pack.encodeAll pre).length) ps).map Pack.call) :=
  (loadFile_spec pre ps cut).1 ⟨fit, bound⟩

/-- The same packets with the flag and type that read as a length word of four. -/
def mislead (p : Pack) : Pack := { p with flag := 4, type := 0 }

/-- Which layouts are loaded exactly whatever the packets contain: those below 4 GiB in which
no block end lies more than four bytes inside a packet, a torn last packet of at most eight
bytes excepted. For any other layout the misleading contents are decoded wrongly.

Proof: one direction is the specification of the loop on layouts that fit. For the other the
packets are replaced by others of the same sizes whose first word of the body is a length that
the loop believes; these have the same block ends, so what loads them exactly fits. -/
theorem loadFile_exact_iff (pre ps : List Pack) (cut : Nat) :
    (∀ ps' : List Pack, ps'.map Pack.size = ps.map Pack.size →
      loadFile (some ((Pack.encodeAll (pre ++ ps')).take cut)) (Pack.encodeAll pre).length =
        some ((Pack.whole (cut - (Pack.encodeAll pre).length) ps').map Pack.call)) ↔
    BlocksFit 0 (bytesBehind pre ps cut) ps ∧ bytesBehind pre ps cut < 2 ^ 32 := by
  have behind : ∀ ps' : List Pack, ps'.map Pack.size = ps.map Pack.size →
      bytesBehind pre ps' cut = bytesBehind pre ps cut := by
    intro ps' sizes
    rw [bytesBehind, bytesBehind, encodeAll_length ps', encodeAll_length ps, sizes]
  constructor
  · intro loads
    have sizes : (ps.map mislead).map Pack.size = ps.map Pack.size := by
      rw [List.map_map]
      rfl
    have misleading : Misleading (ps.map mislead) := by
      intro p member
      obtain ⟨q, _, rfl⟩ := List.mem_map.mp member
      exact ⟨rfl, rfl⟩
    obtain ⟨fit, bound⟩ := (loadFile_spec pre (ps.map mislead) cut).2 misleading (loads _ sizes)
    rw [behind _ sizes] at fit bound
    exact ⟨blocksFit_sizes 0 _ _ _ sizes.symm fit, bound⟩
  · rintro ⟨fit, bound⟩ ps' sizes
    have same := behind ps' sizes
    exact loadFile_fit pre ps' cut (same ▸ blocksFit_sizes 0 _ _ _ sizes fit) (same ▸ bound)

/-- A lone packet that spans two blocks is lost when flag and type, taken for a
length word, ask for more than the file holds. -/
theorem loadFile_lost (p : Pack) (wide : blockSize < p.size) (narrow : p.size < 2 * blockSize)
    (far : p.size ≤ p.flag.toNat + 65536 * p.type.toNat) : loadFile (some p.serialize) 0 = some [] := by
  have width : blockSize = 4096 := rfl
  have length : p.serialize.length = p.size := p.serialize_length
  have stream : Pack.encodeAll [p] = p.serialize := List.append_nil _
  have start : Resumes [] p.serialize [p] := by
    constructor
    · rw [stream, List.nil_append, List.length_nil, Nat.zero_add, List.take_length]
    · exact Nat.le_of_eq (by rw [stream, List.length_nil, Nat.zero_add])
  have chunk : (p.serialize.take blockSize).length = blockSize := List.length_take_of_le (by omega)
  have nothing : Pack.whole blockSize [p] = [] := by
    rw [Pack.whole]
    exact if_neg (by omega)
  have first := start.block [] blockSize (by omega) (by decide)
  simp only [List.length_nil, Nat.zero_add, List.append_nil, List.nil_append, nothing, Pack.encodeAll_nil,
    List.map_nil, stopAt, chunk] at first
  rw [if_pos (by decide)] at first
  have all : p.serialize.take blockSize ++ p.serialize.drop blockSize = p.serialize :=
    List.take_append_drop _ _
  have rest : (p.serialize.drop blockSize).length < blockSize := by
    rw [List.length_drop]
    omega
  have wrote := Bytes.putBytes_filled [] (p.serialize.take blockSize) 0 (by rw [chunk]; decide)
  have wrote' := Bytes.putBytes_filled (p.serialize.take blockSize) (p.serialize.drop blockSize) 4
    (by rw [chunk, List.length_drop]; omega)
  rw [List.nil_append] at wrote
  rw [all] at wrote'
  have reads : Reads p.serialize 0 (p.serialize ++ []) :=
    ⟨by omega, Nat.zero_le _, by rw [List.append_nil, List.drop_zero, Nat.sub_zero, List.take_length]⟩
  have word := reads.word 4 4 4 (by omega)
  rw [p.second_word] at word
  have flagBound : p.flag.toNat < 65536 := p.flag.toNat_lt
  have typeBound : p.type.toNat < 65536 := p.type.toNat_lt
  have moved : (Bytes.filled p.serialize 4).advance 4 = Bytes.filled p.serialize 8 :=
    Bytes.advance_filled p.serialize 4 4
  have read : (Bytes.filled p.serialize 4).getInt =
      (UInt32.ofNat (p.flag.toNat + 65536 * p.type.toNat), Bytes.filled p.serialize 8) := by
    rw [Bytes.getInt, moved]
    exact congrArg (fun word => (UInt32.ofNat word, Bytes.filled p.serialize 8)) word
  have stuck := nextPack_stuck p.serialize 4 _ (by omega) (by omega) (by omega) read (by omega) (by omega)
  have opened : p.serialize ≠ [] := by
    intro empty
    rw [empty, List.length_nil] at length
    omega
  have later : loadLoop (p.serialize.drop blockSize) (Bytes.filled (p.serialize.take blockSize) 4) = some [] := by
    rw [loadLoop, List.take_of_length_le (Nat.le_of_lt rest), wrote']
    simp only [Option.bind_eq_bind, Option.bind_some, rest, ↓reduceIte, packLoop_stop _ _ stuck]
  have long : ¬ p.serialize.length < blockSize := by omega
  simp only [loadFile, List.drop_zero, opened, ↓reduceIte, Bytes.cleared_eq]
  rw [loadLoop, wrote]
  simp only [Option.bind_eq_bind, Option.bind_some, first, long, ↓reduceIte, later, List.append_nil]

/-- A stored value one byte too long for the first block: an `hset` packet of 4097
bytes, alone in its file, is not replayed. -/
theorem loadFile_not_exact : ¬ ∀ (pre ps : List Pack) (cut : Nat),
    loadFile (some ((Pack.encodeAll (pre ++ ps)).take cut)) (Pack.encodeAll pre).length =
      some ((Pack.whole (cut - (Pack.encodeAll pre).length) ps).map Pack.call) := by
  intro exactly
  obtain ⟨p, size, flag, type⟩ : ∃ p : Pack, p.size = 4097 ∧ p.flag = 0 ∧ p.type = 2000 := by
    have body : (List.replicate 4089 (0 : UInt8)).length = 4089 := List.length_replicate
    refine ⟨⟨0, 2000, List.replicate 4089 0, by rw [body]; decide⟩, ?_, rfl, rfl⟩
    rw [Pack.size, body]
  have length : p.serialize.length = 4097 := by rw [Pack.serialize_length, size]
  have wide : blockSize < p.size := Nat.lt_of_lt_of_eq (by decide) size.symm
  have narrow : p.size < 2 * blockSize := Nat.lt_of_le_of_lt (Nat.le_of_eq size) (by decide)
  have lost := loadFile_lost p wide narrow (by rw [size, flag, type]; decide)
  have stream : Pack.encodeAll ([] ++ [p]) = p.serialize := List.append_nil _
  have loaded := exactly [] [p] 4097
  rw [stream, List.take_of_length_le (Nat.le_of_eq length), Pack.encodeAll_nil, List.length_nil, lost,
    Pack.whole, if_pos (Nat.le_of_eq (size.trans rfl))] at loaded
  exact absurd loaded (by simp)

end File

end Naruto.Utils
