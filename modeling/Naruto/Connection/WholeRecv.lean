import Naruto.Connection.Connect
import Naruto.Theory.Runs

/-!
# Receiving what was asked for

When every successful `::recv` delivers the full count it was asked for, `read_`
takes the header with its first call and then what the length word says is missing,
at most 16 KiB at a time. The length word is the peer's. From eight on the size
never passes it, so the 32-bit difference of the two stays a difference of natural
numbers; below eight the size has passed it with the header, and the difference wraps.
-/

namespace Naruto.Connection

open Naruto.Theory Naruto.Utils

/-- What a call of `::recv` does: it delivers what it was asked for, finds the connection
closed, is interrupted, times out, or fails. -/
inductive RecvResult
  | delivered
  | closed
  | interrupted
  | timedOut
  | failed
deriving DecidableEq, Repr

/-- The values that `read_` returns. -/
def connectRtOk : Int := 0

/-- What `recv` returns for a connection that has failed, -/
def connectRtErr : Int := -1

/-- and for one that the peer has closed. -/
def connectRtClose : Int := -2

/-- `read_` between two calls of `::recv`: the buffer, `next_len`, the bytes the peer has
sent and no call has delivered, and what `read_` has returned. -/
structure Reading where
  pack : Bytes
  nextLen : Nat
  stream : List UInt8
  returned : Option Int
deriving DecidableEq, Repr

/-- The beginning of `read_`, on a connection without an error from before. -/
def Reading.start (stream : List UInt8) : Reading := ⟨Bytes.cleared, 8, stream, none⟩

/-- One pass of the loop. Nothing behind the return, when the peer has not sent what was
asked for, or when the buffer overflows. -/
def Reading.step (s : Reading) (result : RecvResult) : Option Reading :=
  match s.returned with
  | some _ => none
  | none =>
    match result with
    | .closed => some { s with returned := some connectRtClose }
    | .interrupted => some s
    | .timedOut => some { s with returned := some connectRtErr }
    | .failed => some { s with returned := some connectRtErr }
    | .delivered =>
      if s.stream.length < s.nextLen then none
      else (s.pack.putBytes (s.stream.take s.nextLen)).map fun pack =>
        let stream := s.stream.drop s.nextLen
        if 8 ≤ pack.size.toNat then
          let length := UInt32.ofNat (pack.readAt 4 0)
          if pack.size = length then ⟨pack, s.nextLen, stream, some connectRtOk⟩
          else ⟨pack, min (length - pack.size).toNat connectReadBufSize, stream, none⟩
        else ⟨pack, 8 - s.nextLen, stream, none⟩

/-- The length word of a stream. -/
def declared (stream : List UInt8) : Nat := leNat (stream.take 4)

/-- What should hold of every state of a call of `read_`: the buffer is bounded, the
difference that asks for more does not wrap, and `CONNECT_RT_OK` comes with exactly the
declared number of bytes. -/
structure Reading.Sound (stream : List UInt8) (s : Reading) : Prop where
  bounded : s.pack.buf.length ≤ max 8 (declared stream)
  noWrap : 8 ≤ s.pack.size.toNat → s.pack.size ≤ UInt32.ofNat (s.pack.readAt 4 0)
  exact : s.returned = some connectRtOk →
    s.pack.buf = stream.take (declared stream) ∧ s.pack.buf.length = declared stream

/-- Every call on a stream is so, and returns after a bounded number of deliveries. -/
def ReadsSoundly (stream : List UInt8) : Prop :=
  ∀ results s, run Reading.step (Reading.start stream) results = some s →
    s.Sound stream ∧ results.count .delivered ≤ max 8 (declared stream)

/-- The loop has the first `n` bytes of the stream, and has asked for the header, or for
what is missing of the declared size. -/
structure Reading.Has (stream : List UInt8) (s : Reading) (n : Nat) : Prop where
  available : n ≤ stream.length
  pack : s.pack = Bytes.filled (stream.take n) 0
  rest : s.stream = stream.drop n
  header : n = 0 ∨ 8 ≤ n
  within : n = 0 ∨ n ≤ declared stream
  asks : s.returned = none → s.nextLen =
    if n = 0 then 8 else min (declared stream - n) connectReadBufSize
  missing : s.returned = none → n = 0 ∨ n < declared stream
  done : s.returned = some connectRtOk → n = declared stream ∧ 8 ≤ n

namespace Reading

variable {stream : List UInt8} {s s' : Reading} {n : Nat}

/-- Before the first read nothing has been taken from the stream. -/
theorem Has.start (stream : List UInt8) : (Reading.start stream).Has stream 0 where
  available := Nat.zero_le _
  pack := rfl
  rest := rfl
  header := Or.inl rfl
  within := Or.inl rfl
  asks := fun _ => rfl
  missing := fun _ => Or.inl rfl
  done := fun impossible => by cases impossible

/-- A declared length is a 32-bit word. -/
theorem declared_lt (stream : List UInt8) : declared stream < 2 ^ 32 := by
  have bound := leNat_lt (stream.take 4)
  have short : (stream.take 4).length ≤ 4 := List.length_take_le 4 stream
  exact Nat.lt_of_lt_of_le bound (Nat.pow_le_pow_right (by decide) short)

/-- The two sizes that the loop compares when it has a header. -/
theorem sizes_prefix (header : 8 ≤ n) (available : n ≤ stream.length) (fits : n < 2 ^ 32) :
    (Bytes.filled (stream.take n) 0).size.toNat = n ∧
      (Bytes.filled (stream.take n) 0).readAt 4 0 = declared stream := by
  have stored : (stream.take n).length = n := List.length_take_of_le available
  constructor
  · rw [Bytes.size]
    exact (word_toNat _ (by rw [Bytes.filled, stored]; exact fits)).trans stored
  · have word := Bytes.readAt_filled (stream.take n) 0 4 0 (by omega) (by omega)
    rw [List.drop_zero, List.take_take, Nat.min_eq_left (by omega)] at word
    exact word

/-- Nothing steps behind the return. -/
theorem open_of_step {result : RecvResult} (stepped : s.step result = some s') : s.returned = none := by
  rw [step.eq_def] at stepped
  split at stepped
  · cases stepped
  · assumption

/-- When the length word is at least eight the loop asks for something, and for no more than
the declared size; with it, it has a header. -/
theorem Has.asks_inside (has : s.Has stream n) (large : 8 ≤ declared stream) (unreturned : s.returned = none) :
    0 < s.nextLen ∧ n + s.nextLen ≤ declared stream ∧ 8 ≤ n + s.nextLen := by
  have missing := has.missing unreturned
  have header := has.header
  have cap : connectReadBufSize = 16384 := rfl
  rw [has.asks unreturned]
  split
  · omega
  · omega

/-- What a delivery does: the buffer has the next bytes of the stream, and the loop returns
with the declared size or asks for what is missing of it. The two cases are whether the header
is there yet: before that the word is not looked at. -/
theorem Has.step_delivered (has : s.Has stream n) (large : 8 ≤ declared stream) (unreturned : s.returned = none)
    (stepped : s.step .delivered = some s') :
    n + s.nextLen ≤ stream.length ∧ s' = (if n + s.nextLen = declared stream then
        ⟨Bytes.filled (stream.take (n + s.nextLen)) 0, s.nextLen, stream.drop (n + s.nextLen), some connectRtOk⟩
      else ⟨Bytes.filled (stream.take (n + s.nextLen)) 0,
        min (declared stream - (n + s.nextLen)) connectReadBufSize, stream.drop (n + s.nextLen), none⟩) := by
  have bound := declared_lt stream
  have before := has.available
  obtain ⟨_, inside, some8⟩ := has.asks_inside large unreturned
  rw [step, unreturned] at stepped
  dsimp only at stepped
  split at stepped
  · cases stepped
  · rename_i sent
    rw [has.rest, List.length_drop] at sent
    have available : n + s.nextLen ≤ stream.length := by omega
    have written : s.pack.putBytes (s.stream.take s.nextLen) =
        some (Bytes.filled (stream.take (n + s.nextLen)) 0) := by
      rw [has.pack, has.rest, Bytes.putBytes_filled, ← List.take_add]
      rw [List.length_take, List.length_take, List.length_drop]
      omega
    obtain ⟨size, word⟩ := sizes_prefix some8 available (by omega)
    have header : 8 ≤ (Bytes.filled (stream.take (n + s.nextLen)) 0).size.toNat := by
      rw [size]
      exact some8
    have behind : s.stream.drop s.nextLen = stream.drop (n + s.nextLen) := by
      rw [has.rest, List.drop_drop]
    have wordNat : (UInt32.ofNat (declared stream)).toNat = declared stream := word_toNat _ bound
    have whole : (Bytes.filled (stream.take (n + s.nextLen)) 0).size = UInt32.ofNat (declared stream) ↔
        n + s.nextLen = declared stream := by
      rw [← UInt32.toNat_inj, size, wordNat]
    have least : (Bytes.filled (stream.take (n + s.nextLen)) 0).size ≤ UInt32.ofNat (declared stream) := by
      rw [UInt32.le_iff_toNat_le, size, wordNat]
      exact inside
    have left : (UInt32.ofNat (declared stream) - (Bytes.filled (stream.take (n + s.nextLen)) 0).size).toNat =
        declared stream - (n + s.nextLen) := by
      rw [UInt32.toNat_sub_of_le _ _ least, size, wordNat]
    rw [written, Option.map_some, behind] at stepped
    simp only [header, ↓reduceIte, word, Option.some.injEq, whole, left] at stepped
    exact ⟨available, stepped.symm⟩

/-- A delivery when the length word is at least eight: the loop has what it asked for in
addition, and returns when it has the declared size. With the word at least eight the missing
bytes are a difference that does not wrap. -/
theorem Has.delivered (has : s.Has stream n) (large : 8 ≤ declared stream) (unreturned : s.returned = none)
    (stepped : s.step .delivered = some s') : s'.Has stream (n + s.nextLen) ∧ 0 < s.nextLen := by
  obtain ⟨positive, inside, some8⟩ := has.asks_inside large unreturned
  obtain ⟨available, rfl⟩ := has.step_delivered large unreturned stepped
  refine ⟨?_, positive⟩
  split
  · rename_i whole
    exact
      { available := available
        pack := rfl
        rest := rfl
        header := Or.inr some8
        within := Or.inr inside
        asks := fun impossible => by cases impossible
        missing := fun impossible => by cases impossible
        done := fun _ => ⟨whole, some8⟩ }
  · rename_i other
    exact
      { available := available
        pack := rfl
        rest := rfl
        header := Or.inr some8
        within := Or.inr inside
        asks := fun _ => (if_neg (by omega)).symm
        missing := fun _ => Or.inr (Nat.lt_of_le_of_ne inside other)
        done := fun impossible => by cases impossible }

/-- Results without bytes leave the loop what it has. An interrupted call makes the loop ask
again, and a failed or an ended one makes it return. -/
theorem Has.other (has : s.Has stream n) {result : RecvResult} (empty : result ≠ .delivered)
    (stepped : s.step result = some s') : s'.Has stream n := by
  have kept : ∀ code : Int, code ≠ connectRtOk → ({ s with returned := some code } : Reading).Has stream n :=
    fun code error =>
      { has with
        asks := fun impossible => by cases impossible
        missing := fun impossible => by cases impossible
        done := fun ok => absurd (Option.some.inj ok) error }
  rw [step.eq_def] at stepped
  split at stepped
  · cases stepped
  · cases result with
    | delivered => exact absurd rfl empty
    | closed =>
      obtain rfl := Option.some.inj stepped
      exact kept _ (by decide)
    | interrupted =>
      obtain rfl := Option.some.inj stepped
      exact has
    | timedOut =>
      obtain rfl := Option.some.inj stepped
      exact kept _ (by decide)
    | failed =>
      obtain rfl := Option.some.inj stepped
      exact kept _ (by decide)

/-- A call on a stream with a length word of at least eight: what it has grows by at least
a byte with every delivery. By induction on the results. -/
theorem Has.run (large : 8 ≤ declared stream) (has : s.Has stream n) (results : List RecvResult)
    (ran : Theory.run step s results = some s') :
    ∃ n', s'.Has stream n' ∧ n + results.count .delivered ≤ n' := by
  induction results generalizing s n with
  | nil =>
    obtain rfl := Option.some.inj ran
    exact ⟨n, has, Nat.le_refl _⟩
  | cons result results ih =>
    obtain ⟨middle, stepped, rest⟩ := Option.bind_eq_some_iff.mp ran
    by_cases delivery : result = .delivered
    · subst delivery
      have unreturned := open_of_step stepped
      obtain ⟨more, positive⟩ := has.delivered large unreturned stepped
      obtain ⟨n', last, counted⟩ := ih more rest
      refine ⟨n', last, ?_⟩
      rw [List.count_cons_self]
      omega
    · obtain ⟨n', last, counted⟩ := ih (has.other delivery stepped) rest
      refine ⟨n', last, ?_⟩
      rw [List.count_cons_of_ne delivery]
      exact counted

/-- What the loop has is as it should be. It never reads beyond the length that the header
declares, and returns when it has all of it. -/
theorem Has.sound (has : s.Has stream n) : s.Sound stream := by
  have bound := declared_lt stream
  have stored : s.pack.buf.length = n := by
    rw [has.pack]
    exact List.length_take_of_le has.available
  constructor
  · rw [stored]
    rcases has.within with nothing | inside <;> omega
  · intro header
    rcases has.within with nothing | inside
    · rw [has.pack, nothing, List.take_zero] at header
      exact absurd header (by decide)
    · have some8 : 8 ≤ n := by
        rcases has.header with nothing | some8
        · rw [has.pack, nothing, List.take_zero] at header
          exact absurd header (by decide)
        · exact some8
      obtain ⟨size, word⟩ := sizes_prefix some8 has.available (by omega)
      rw [has.pack, word, UInt32.le_iff_toNat_le, size, word_toNat _ bound]
      exact inside
  · intro ok
    obtain ⟨whole, _⟩ := has.done ok
    rw [stored, has.pack, ← whole]
    exact ⟨rfl, rfl⟩

/-- A stream that ends inside the header delivers nothing. -/
theorem no_delivery (short : stream.length < 8) (has : s.Has stream 0) (unreturned : s.returned = none) :
    s.step .delivered = none := by
  have few : s.stream.length < s.nextLen := by
    rw [has.rest, has.asks unreturned, List.drop_zero, if_pos rfl]
    exact short
  rw [step, unreturned]
  exact if_pos few

/-- So a call on it stays with nothing. By induction on the results: none of them brings bytes,
and the loop goes round. -/
theorem Has.run_short (short : stream.length < 8) (has : s.Has stream 0) (results : List RecvResult)
    (ran : Theory.run step s results = some s') : s'.Has stream 0 ∧ results.count .delivered = 0 := by
  induction results generalizing s with
  | nil =>
    obtain rfl := Option.some.inj ran
    exact ⟨has, rfl⟩
  | cons result results ih =>
    obtain ⟨middle, stepped, rest⟩ := Option.bind_eq_some_iff.mp ran
    have delivery : result ≠ .delivered := by
      rintro rfl
      have unreturned := open_of_step stepped
      rw [no_delivery short has unreturned] at stepped
      cases stepped
    obtain ⟨last, counted⟩ := ih (has.other delivery stepped) rest
    refine ⟨last, ?_⟩
    rw [List.count_cons_of_ne delivery]
    exact counted

end Reading

/-- The first delivery of a stream that has a header: the loop has the header. -/
theorem first_delivery (stream : List UInt8) (header : 8 ≤ stream.length) :
    ∃ s, run Reading.step (Reading.start stream) [.delivered] = some s ∧
      s.pack = Bytes.filled (stream.take 8) 0 := by
  have written : Bytes.cleared.putBytes (stream.take 8) = some (Bytes.filled (stream.take 8) 0) := by
    have stored : (stream.take 8).length = 8 := List.length_take_of_le header
    exact Bytes.putBytes_filled [] (stream.take 8) 0 (by rw [stored]; decide)
  have sent : ¬ stream.length < 8 := Nat.not_lt.mpr header
  simp only [run, Reading.step, Reading.start, sent, ↓reduceIte, written, Option.map_some, Option.bind_some,
    Option.some.injEq, exists_eq_left']
  split_ifs <;> rfl

/-- `read_` reads a stream soundly, whatever happens to its calls, exactly when the stream
ends inside the header or the length word is at least eight.

Proof: with eight bytes read and a smaller length word, the difference that is asked for
next wraps. Otherwise what has been read is always the beginning of the stream, and what is
asked for next never reaches behind the packet; every call keeps this, a failed one too. -/
theorem readsSoundly_iff (stream : List UInt8) :
    ReadsSoundly stream ↔ stream.length < 8 ∨ 8 ≤ declared stream := by
  constructor
  · intro sound
    by_contra neither
    obtain ⟨long, small⟩ := not_or.mp neither
    obtain ⟨s, ran, pack⟩ := first_delivery stream (Nat.not_lt.mp long)
    obtain ⟨size, word⟩ := Reading.sizes_prefix (Nat.le_refl 8) (Nat.not_lt.mp long) (by decide)
    have noWrap := (sound _ s ran).1.noWrap
    rw [pack, word, UInt32.le_iff_toNat_le, size, word_toNat _ (Reading.declared_lt stream)] at noWrap
    exact small (noWrap (Nat.le_refl 8))
  · rintro (short | large) results s ran
    · obtain ⟨has, unread⟩ := (Reading.Has.start stream).run_short short results ran
      exact ⟨has.sound, by rw [unread]; exact Nat.zero_le _⟩
    · obtain ⟨n, has, counted⟩ := (Reading.Has.start stream).run large results ran
      have bounded := has.sound.bounded
      rw [has.pack] at bounded
      have stored : (stream.take n).length = n := List.length_take_of_le has.available
      have held : (Bytes.filled (stream.take n) 0).buf.length = n := stored
      exact ⟨has.sound, by omega⟩

/-- A header whose length word is zero, and nothing behind it. -/
theorem reads_not_soundly : ¬ ∀ stream, ReadsSoundly stream := by
  intro all
  obtain ⟨s, ran, pack⟩ := first_delivery (List.replicate 8 0) (by decide)
  have noWrap := ((all _) _ s ran).1.noWrap
  rw [pack] at noWrap
  exact absurd (noWrap (by decide)) (by decide)

end Naruto.Connection
