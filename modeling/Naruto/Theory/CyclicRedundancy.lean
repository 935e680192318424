import Mathlib.Data.List.Basic

/-!
# Cyclic redundancy checks

A register takes the bits of a message one by one. It moves by one place, towards its
most or its least significant bit, and the polynomial is added when the bit that falls
out and the message's differ. Feeding is linear in the register and in the bits, so
several bits at once move the register by as many places and add the remainder of the
bits that have fallen out and the message's: this is the step of a table-driven loop.
-/

namespace Naruto.Theory

universe u

/-- A direction in which a register moves: the moved register and the bit that falls out,
both linear. -/
structure Moving (w : Nat) where
  move : BitVec w → BitVec w
  out : BitVec w → Bool
  move_xor : ∀ a b, move (a ^^^ b) = move a ^^^ move b
  out_xor : ∀ a b, out (a ^^^ b) = (out a ^^ out b)

namespace Moving

variable {w : Nat}

/-- The most significant bit falls out first. -/
def left (w : Nat) : Moving w where
  move c := c <<< 1
  out c := c.msb
  move_xor := fun a b => BitVec.shiftLeft_xor_distrib a b 1
  out_xor := fun _ _ => BitVec.msb_xor

/-- The least significant bit falls out first: the reflected check. -/
def right (w : Nat) : Moving w where
  move c := c >>> 1
  out c := c.getLsbD 0
  move_xor := fun a b => BitVec.ushiftRight_xor_distrib a b 1
  out_xor := fun _ _ => BitVec.getLsbD_xor

/-- One bit of the message. -/
def feed (moving : Moving w) (poly c : BitVec w) (bit : Bool) : BitVec w :=
  if moving.out c ^^ bit then moving.move c ^^^ poly else moving.move c

/-- The bits of a message, one by one. -/
def remainder (moving : Moving w) (poly c : BitVec w) (bits : List Bool) : BitVec w := bits.foldl (moving.feed poly) c

/-- The bits that fall out of a register first. -/
def outs (moving : Moving w) : Nat → BitVec w → List Bool
  | 0, _ => []
  | n + 1, c => moving.out c :: moving.outs n (moving.move c)

/-- The register moved by some places. -/
def moves (moving : Moving w) : Nat → BitVec w → BitVec w
  | 0, c => c
  | n + 1, c => moving.moves n (moving.move c)

variable (moving : Moving w) (poly : BitVec w)

/-- The remainder of no bits is the register itself, -/
@[simp] theorem remainder_nil (c : BitVec w) : moving.remainder poly c [] = c := rfl

/-- that of more bits goes on behind the first one, -/
@[simp] theorem remainder_cons (c : BitVec w) (bit : Bool) (bits : List Bool) :
    moving.remainder poly c (bit :: bits) = moving.remainder poly (moving.feed poly c bit) bits := rfl

/-- and that of two strings goes on behind the first string. -/
theorem remainder_append (c : BitVec w) (front back : List Bool) :
    moving.remainder poly c (front ++ back) = moving.remainder poly (moving.remainder poly c front) back := by
  simp [remainder]

/-- As many bits come out as moves are made. -/
@[simp] theorem length_outs (n : Nat) (c : BitVec w) : (moving.outs n c).length = n := by
  induction n generalizing c with
  | zero => rfl
  | succ n ih => simp [outs, ih]

/-- A register of zeros moves to itself, -/
theorem move_zero : moving.move 0#w = 0#w := by
  have doubled := moving.move_xor 0#w 0#w
  simpa using doubled

/-- and no one comes out of it. -/
theorem out_zero : moving.out 0#w = false := by
  have doubled := moving.out_xor 0#w 0#w
  simpa using doubled

/-- Feeding is linear. The bit that decides is a sum of bits, and the polynomial added twice is
gone. -/
theorem feed_xor (a b : BitVec w) (x y : Bool) :
    moving.feed poly (a ^^^ b) (x ^^ y) = moving.feed poly a x ^^^ moving.feed poly b y := by
  have cancel : ∀ p q : BitVec w, p ^^^ q = p ^^^ poly ^^^ (q ^^^ poly) := by
    intro p q
    rw [BitVec.xor_comm q, ← BitVec.xor_assoc, BitVec.xor_assoc p, BitVec.xor_self, BitVec.xor_zero]
  have parity : (moving.out (a ^^^ b) ^^ (x ^^ y)) = ((moving.out a ^^ x) ^^ (moving.out b ^^ y)) := by
    rw [moving.out_xor]
    cases moving.out a <;> cases moving.out b <;> cases x <;> cases y <;> rfl
  rw [feed, feed, feed, parity, moving.move_xor]
  cases moving.out a ^^ x <;> cases moving.out b ^^ y
  · simp
  · simp [BitVec.xor_assoc]
  · simp only [Bool.xor_false, ↓reduceIte, Bool.false_eq_true]
    rw [BitVec.xor_assoc, BitVec.xor_comm _ poly, BitVec.xor_assoc]
  · simpa using cancel _ _

/-- So is feeding several bits. -/
theorem remainder_xor (a b : BitVec w) (xs ys : List Bool) (same : xs.length = ys.length) :
    moving.remainder poly (a ^^^ b) (List.zipWith (· ^^ ·) xs ys) =
      moving.remainder poly a xs ^^^ moving.remainder poly b ys := by
  induction xs generalizing a b ys with
  | nil =>
    obtain rfl := List.length_eq_zero_iff.mp same.symm
    rfl
  | cons x xs ih =>
    cases ys with
    | nil => cases same
    | cons y ys =>
      simp only [List.zipWith_cons_cons, remainder_cons, feed_xor]
      exact ih _ _ ys (Nat.succ.inj same)

/-- Some zero bits behind a bit change nothing in the linear sum. -/
theorem zipWith_false (bits : List Bool) :
    List.zipWith (· ^^ ·) bits (List.replicate bits.length false) = bits := by
  induction bits with
  | nil => rfl
  | cons bit bits ih => simp [List.replicate_succ, ih]

/-- What is added to the register only moves on. -/
theorem remainder_add (a b : BitVec w) (bits : List Bool) :
    moving.remainder poly (a ^^^ b) bits =
      moving.remainder poly a bits ^^^ moving.remainder poly b (List.replicate bits.length false) := by
  have linear := moving.remainder_xor poly a b bits (List.replicate bits.length false) (by simp)
  rwa [zipWith_false] at linear

/-- One bit, apart from the move. -/
theorem feed_eq (c : BitVec w) (bit : Bool) :
    moving.feed poly c bit = moving.move c ^^^ moving.feed poly 0#w (moving.out c ^^ bit) := by
  rw [feed, feed, moving.out_zero, moving.move_zero]
  cases moving.out c ^^ bit <;> simp

/-- Several bits at once: the register moves, and the remainder of the bits that fell
out of it and the message's is added. -/
theorem remainder_moves (c : BitVec w) (bits : List Bool) :
    moving.remainder poly c bits = moving.moves bits.length c ^^^
      moving.remainder poly 0#w (List.zipWith (· ^^ ·) (moving.outs bits.length c) bits) := by
  induction bits generalizing c with
  | nil => simp [moves, outs]
  | cons bit bits ih =>
    have later := moving.remainder_add poly 0#w (moving.feed poly 0#w (moving.out c ^^ bit))
      (List.zipWith (· ^^ ·) (moving.outs bits.length (moving.move c)) bits)
    have count : (List.zipWith (· ^^ ·) (moving.outs bits.length (moving.move c)) bits).length = bits.length := by simp
    rw [BitVec.zero_xor, count] at later
    rw [remainder_cons, feed_eq, remainder_add, ih, BitVec.xor_assoc, ← later]
    rfl

/-- A check that takes the chunks of a message from a table. `place` are the bits of a
chunk, and the table has their remainder. -/
theorem table_driven {Chunk : Type u} (place : Chunk → List Bool) (step : BitVec w → Chunk → BitVec w)
    (table : ∀ c chunk, step c chunk = moving.moves (place chunk).length c ^^^
      moving.remainder poly 0#w (List.zipWith (· ^^ ·) (moving.outs (place chunk).length c) (place chunk)))
    (c : BitVec w) (chunks : List Chunk) :
    chunks.foldl step c = moving.remainder poly c (chunks.flatMap place) := by
  induction chunks generalizing c with
  | nil => rfl
  | cons chunk chunks ih =>
    rw [List.foldl_cons, ih, table, ← remainder_moves, List.flatMap_cons, remainder_append]

/-- Towards the most significant bit the bits fall out from there on. -/
theorem left_outs (n : Nat) (c : BitVec w) : (left w).outs n c = (List.range n).map c.getMsbD := by
  induction n generalizing c with
  | zero => rfl
  | succ n ih =>
    rw [outs, ih, List.range_succ_eq_map, List.map_cons, List.map_map]
    congr 1
    apply List.map_congr_left
    intro i _
    simp [left, BitVec.getMsbD_shiftLeft]

/-- Moving left many times is one shift to the left, -/
theorem left_moves (n : Nat) (c : BitVec w) : (left w).moves n c = c <<< n := by
  induction n generalizing c with
  | zero => simp [moves]
  | succ n ih =>
    rw [moves, ih]
    simp [left, ← BitVec.shiftLeft_add, Nat.add_comm]

/-- Towards the least significant bit, from there on. -/
theorem right_outs (n : Nat) (c : BitVec w) : (right w).outs n c = (List.range n).map c.getLsbD := by
  induction n generalizing c with
  | zero => rfl
  | succ n ih =>
    rw [outs, ih, List.range_succ_eq_map, List.map_cons, List.map_map]
    congr 1
    apply List.map_congr_left
    intro i _
    simp [right, Nat.add_comm]

/-- and moving right many times is one shift to the right. -/
theorem right_moves (n : Nat) (c : BitVec w) : (right w).moves n c = c >>> n := by
  induction n generalizing c with
  | zero => simp [moves]
  | succ n ih =>
    rw [moves, ih]
    simp [right, ← BitVec.shiftRight_add, Nat.add_comm]

end Moving

end Naruto.Theory
