import Naruto.Utils.Pack

/-!
# Sending and receiving packets

`Connect::send` writes a packet with as many calls of `::send` as it takes.
`Connect::recv` reads a header first, and then what the length word says is
missing. While the header is incomplete, however, it asks for eight bytes less
the last piece, not less all that has come: a header in three or more pieces can
end beyond a short packet, and the call then waits for a length it has passed.
A sequence of packets is received exactly when no header does so.

The results of the system calls are lists. A result that the call cannot have is
no run of the program.
-/

namespace Naruto.Connection

open Naruto.Theory Naruto.Utils

/-- What a call of `::send` returns: a number of bytes, or `EINTR`. -/
inductive SendResult
  | wrote (writed : Nat)
  | interrupted
deriving DecidableEq, Repr

/-- The loop of `send`: the bytes that reach the connection until it returns
`CONNECT_RT_OK`. -/
def sendLoop (buf : List UInt8) (sendSize nextLen : Nat) : List SendResult → Option (List UInt8)
  | [] => none
  | .interrupted :: results => sendLoop buf sendSize nextLen results
  | .wrote writed :: results =>
    if writed = 0 ∨ nextLen < writed then none
    else
      let wire := (buf.drop sendSize).take writed
      let sendSize := sendSize + writed
      if sendSize = buf.length then some wire
      else (sendLoop buf sendSize (buf.length - sendSize) results).map (wire ++ ·)

/-- The bytes that some results account for. -/
def written : List SendResult → Nat
  | [] => 0
  | .interrupted :: results => written results
  | .wrote writed :: results => writed + written results

/-- Results of the calls that send so many bytes: any partial results, with `EINTR`
anywhere between them. -/
def Sends (results : List SendResult) (bytes : Nat) : Prop :=
  written results = bytes ∧ ∀ writed, .wrote writed ∈ results → 0 < writed

/-- `send`, and with it `write_`. -/
def send (results : List SendResult) (buf : List UInt8) : Option (List UInt8) := sendLoop buf 0 buf.length results

/-- Packets that are sent one after another, each with the results of its calls. -/
def sendAll : List (Pack × List SendResult) → Option (List UInt8)
  | [] => some []
  | (p, results) :: sends => do
    let wire ← send results p.serialize
    let later ← sendAll sends
    some (wire ++ later)

/-- `CONNECT_READ_BUF_SIZE`. -/
def connectReadBufSize : Nat := 16384

/-- Where a call of `read_` ends: it returns a packet, with the results and the bytes
that are left; it waits when the results are used up; a result may be impossible, and
the buffer may overflow. -/
inductive Recv
  | returned (pack : Bytes) (results : List Nat) (stream : List UInt8)
  | waiting
  | impossible
  | overflow
deriving DecidableEq

/-- The loop of `read_`. A result of `::recv` lies between 1 and what was asked for. `pack`
is what has been read and `nextLen` what is asked for next: eight bytes less the last
result until a header is there, and behind it what the length word says is missing, at most
a buffer of it. -/
def readLoop (pack : Bytes) (nextLen : Nat) (stream : List UInt8) : List Nat → Recv
  | [] => .waiting
  | readn :: results =>
    if readn = 0 ∨ nextLen < readn ∨ stream.length < readn then .impossible
    else match pack.putBytes (stream.take readn) with
      | none => .overflow
      | some pack =>
        let stream := stream.drop readn
        if 8 ≤ pack.size.toNat then
          let length := UInt32.ofNat (pack.readAt 4 0)
          if pack.size = length then .returned pack results stream
          else readLoop pack (min (length - pack.size).toNat connectReadBufSize) stream results
        else readLoop pack (8 - readn) stream results

/-- `read_`, and with it `recv`. -/
def recv (results : List Nat) (stream : List UInt8) : Recv := readLoop Bytes.cleared 8 stream results

/-- The results can be those of so many calls of `recv`. -/
def Possible : Nat → List Nat → List UInt8 → Prop
  | 0, _, _ => True
  | calls + 1, results, stream =>
    match recv results stream with
    | .returned _ results stream => Possible calls results stream
    | .waiting => True
    | .impossible => False
    | .overflow => True

/-- Whether results are possible can be decided, by making the calls. -/
instance : ∀ calls results stream, Decidable (Possible calls results stream)
  | 0, _, _ => isTrue trivial
  | calls + 1, results, stream =>
    match called : recv results stream with
    | .returned _ results' stream' =>
      have := instDecidablePossible calls results' stream'
      decidable_of_iff (Possible calls results' stream') (by simp only [Possible, called])
    | .waiting => isTrue (by simp only [Possible, called])
    | .impossible => isFalse (by simp only [Possible, called, not_false_eq_true])
    | .overflow => isTrue (by simp only [Possible, called])

/-- Successive calls of `recv` return these packets, each without a byte of the next. -/
def Delivers : List Pack → List Nat → List UInt8 → Prop
  | [], _, _ => True
  | p :: packs, results, stream => ∃ results' stream',
    recv results stream = .returned (Bytes.filled p.serialize 0) results' stream' ∧
      stream = p.serialize ++ stream' ∧ Delivers packs results' stream'

/-- The bytes of the pieces up to the one that completes a header, when some bytes
have come before. -/
def headerBytes : Nat → List Nat → Nat
  | received, [] => received
  | received, piece :: pieces => if 8 ≤ received + piece then received + piece else headerBytes (received + piece) pieces

/-- The pieces behind so many bytes. -/
def piecesBehind : Nat → List Nat → List Nat
  | _, [] => []
  | bytes, piece :: pieces => if bytes = 0 then piece :: pieces else piecesBehind (bytes - piece) pieces

/-- The pieces in which the header of a packet comes do not exceed the packet. -/
def HeadersFit : List Pack → List Nat → Prop
  | [], _ => True
  | p :: packs, pieces => headerBytes 0 pieces ≤ p.size ∧ HeadersFit packs (piecesBehind p.size pieces)

/-- Until `send` returns, `sendSize` bytes have been sent; it returns when it has sent the
rest. The induction is on the results; an interrupted call changes nothing. -/
theorem sendLoop_eq (buf : List UInt8) (sendSize : Nat) (results : List SendResult) (missing : sendSize < buf.length)
    (sends : Sends results (buf.length - sendSize)) :
    sendLoop buf sendSize (buf.length - sendSize) results = some (buf.drop sendSize) := by
  induction results generalizing sendSize with
  | nil =>
    have sent : 0 = buf.length - sendSize := sends.1
    omega
  | cons result results ih =>
    obtain ⟨count, positive⟩ := sends
    have later : ∀ writed, .wrote writed ∈ results → 0 < writed := fun writed member =>
      positive writed (List.mem_cons_of_mem _ member)
    cases result with
    | interrupted => exact ih sendSize missing ⟨count, later⟩
    | wrote writed =>
      have moved := positive writed List.mem_cons_self
      rw [written] at count
      rw [sendLoop, if_neg (by omega)]
      dsimp only
      by_cases last : sendSize + writed = buf.length
      · rw [if_pos last, List.take_of_length_le]
        rw [List.length_drop]
        omega
      · rw [if_neg last, ih (sendSize + writed) (by omega) ⟨by omega, later⟩, Option.map_some, ← List.drop_drop,
          List.take_append_drop]

/-- Packets reach the connection as their bytes, in order. By induction on the packets: the loop
of each `send` writes the whole packet. -/
theorem sendAll_eq (sends : List (Pack × List SendResult)) (accepted : ∀ s ∈ sends, Sends s.2 s.1.size) :
    sendAll sends = some (Pack.encodeAll (sends.map Prod.fst)) := by
  induction sends with
  | nil => rfl
  | cons first sends ih =>
    obtain ⟨p, results⟩ := first
    have lower := p.head_le_size
    have here : send results p.serialize = some p.serialize := by
      have sends := accepted (p, results) List.mem_cons_self
      have length := p.serialize_length
      exact sendLoop_eq p.serialize 0 results (by omega) (by rw [length]; exact sends)
    have later := ih fun s member => accepted s (List.mem_cons_of_mem _ member)
    rw [sendAll, here, later]
    rfl

/-- A call that returns has used some of the pieces, and the bytes in them. The induction is on
the pieces, with what is buffered and what is asked for. -/
theorem readLoop_used (pack : Bytes) (nextLen : Nat) (stream : List UInt8) (results : List Nat) (pack' : Bytes)
    (results' : List Nat) (stream' : List UInt8)
    (returned : readLoop pack nextLen stream results = .returned pack' results' stream') :
    ∃ used, results = used ++ results' ∧ stream' = stream.drop used.sum ∧ used.sum ≤ stream.length ∧
      ∀ piece ∈ used, 0 < piece := by
  induction results generalizing pack nextLen stream with
  | nil => cases returned
  | cons readn results ih =>
    rw [readLoop] at returned
    split at returned
    · cases returned
    · rename_i accepted
      have positive : 0 < readn := by omega
      have here : readn ≤ stream.length := by omega
      have later : ∀ pack nextLen, readLoop pack nextLen (stream.drop readn) results =
          .returned pack' results' stream' → ∃ used, readn :: results = used ++ results' ∧
            stream' = stream.drop used.sum ∧ used.sum ≤ stream.length ∧ ∀ piece ∈ used, 0 < piece := by
        intro pack nextLen returned
        obtain ⟨used, split, behind, bound, all⟩ := ih pack nextLen (stream.drop readn) returned
        refine ⟨readn :: used, by rw [split, List.cons_append], ?_, ?_, ?_⟩
        · rw [behind, List.drop_drop, List.sum_cons]
        · rw [List.length_drop] at bound
          rw [List.sum_cons]
          omega
        · intro piece member
          rcases List.mem_cons.mp member with rfl | member
          · exact positive
          · exact all piece member
      split at returned
      · cases returned
      · dsimp only at returned
        split at returned
        · split at returned
          · obtain ⟨_, rfl, rfl⟩ := Recv.returned.inj returned
            refine ⟨[readn], rfl, by rw [List.sum_singleton], by rw [List.sum_singleton]; exact here, ?_⟩
            intro piece member
            rw [List.mem_singleton.mp member]
            exact positive
          · exact later _ _ returned
        · exact later _ _ returned

/-- A piece of a packet in the buffer behind the pieces before it. -/
theorem putBytes_piece (p : Pack) (rest : List UInt8) (received readn : Nat) (inside : received + readn ≤ p.size) :
    (Bytes.filled (p.serialize.take received) 0).putBytes ((p.serialize.drop received ++ rest).take readn) =
      some (Bytes.filled (p.serialize.take (received + readn)) 0) := by
  have length := p.serialize_length
  have bound := p.size_lt
  have piece : (p.serialize.drop received ++ rest).take readn = (p.serialize.drop received).take readn := by
    apply List.take_append_of_le_length
    rw [List.length_drop]
    omega
  rw [piece, Bytes.putBytes_filled, ← List.take_add]
  rw [List.length_take, List.length_take, List.length_drop]
  omega

/-- The two sizes the loop compares: what has come, and the length word. The word is there as
soon as eight bytes are. -/
theorem sizes_piece (p : Pack) (received : Nat) (header : 8 ≤ received) (inside : received ≤ p.size) :
    (Bytes.filled (p.serialize.take received) 0).size.toNat = received ∧
      (UInt32.ofNat ((Bytes.filled (p.serialize.take received) 0).readAt 4 0)).toNat = p.size := by
  have length := p.serialize_length
  have bound := p.size_lt
  have stored : (p.serialize.take received).length = received := by
    rw [List.length_take]
    omega
  refine ⟨?_, ?_⟩
  · rw [Bytes.size]
    exact (word_toNat _ (by rw [Bytes.filled, stored]; omega)).trans stored
  · have word := Bytes.readAt_filled (p.serialize.take received) 0 4 0 (by omega) (by omega)
    rw [List.drop_zero, List.take_take, Nat.min_eq_left (by omega), p.serialize_fields.1] at word
    exact (congrArg (fun n => (UInt32.ofNat n).toNat) word).trans (word_toNat _ bound)

/-- One more piece of a packet: the call returns when it is the last, and asks for more
otherwise. The length word is believed once eight bytes are there, and is the packet's own from
then on. -/
theorem readLoop_piece (p : Pack) (rest : List UInt8) (received nextLen readn : Nat) (results : List Nat)
    (positive : readn ≠ 0) (asked : readn ≤ nextLen) (inside : received + readn ≤ p.size) :
    readLoop (Bytes.filled (p.serialize.take received) 0) nextLen (p.serialize.drop received ++ rest)
      (readn :: results) =
        if received + readn = p.size then .returned (Bytes.filled p.serialize 0) results rest
        else readLoop (Bytes.filled (p.serialize.take (received + readn)) 0)
          (if 8 ≤ received + readn then min (p.size - (received + readn)) connectReadBufSize else 8 - readn)
          (p.serialize.drop (received + readn) ++ rest) results := by
  have length := p.serialize_length
  have lower := p.head_le_size
  have bound := p.size_lt
  have available : readn ≤ (p.serialize.drop received ++ rest).length := by
    rw [List.length_append, List.length_drop]
    omega
  have left : (p.serialize.drop received ++ rest).drop readn = p.serialize.drop (received + readn) ++ rest := by
    rw [List.drop_append_of_le_length (by rw [List.length_drop]; omega), List.drop_drop]
  have accepted : ¬ (readn = 0 ∨ nextLen < readn ∨ (p.serialize.drop received ++ rest).length < readn) := by omega
  have stored : (Bytes.filled (p.serialize.take (received + readn)) 0).size.toNat = received + readn := by
    rw [Bytes.size]
    have taken : (p.serialize.take (received + readn)).length = received + readn := by
      rw [List.length_take]
      omega
    exact (word_toNat _ (by rw [Bytes.filled, taken]; omega)).trans taken
  rw [readLoop, if_neg accepted, putBytes_piece p rest received readn inside]
  dsimp only
  rw [left, stored]
  by_cases header : 8 ≤ received + readn
  · obtain ⟨_, word⟩ := sizes_piece p (received + readn) header inside
    rw [if_pos header, if_pos header]
    by_cases last : received + readn = p.size
    · have same : (Bytes.filled (p.serialize.take (received + readn)) 0).size =
          UInt32.ofNat ((Bytes.filled (p.serialize.take (received + readn)) 0).readAt 4 0) :=
        UInt32.toNat_inj.mp (stored.trans (last.trans word.symm))
      rw [if_pos same, if_pos last, last, ← length, List.take_length, List.drop_length, List.nil_append]
    · have other : (Bytes.filled (p.serialize.take (received + readn)) 0).size ≠
          UInt32.ofNat ((Bytes.filled (p.serialize.take (received + readn)) 0).readAt 4 0) := by
        intro same
        exact last (stored.symm.trans ((congrArg UInt32.toNat same).trans word))
      have missing : (UInt32.ofNat ((Bytes.filled (p.serialize.take (received + readn)) 0).readAt 4 0) -
          (Bytes.filled (p.serialize.take (received + readn)) 0).size).toNat = p.size - (received + readn) := by
        rw [UInt32.toNat_sub_of_le _ _ (by rw [UInt32.le_iff_toNat_le, word, stored]; exact inside), word, stored]
      rw [if_neg other, if_neg last, missing]
  · have more : received + readn ≠ p.size := by omega
    rw [if_neg header, if_neg more, if_neg header]

/-- A call on the rest of a packet whose header fits returns the packet and leaves what
stands behind it. The induction is on the results; `received` bytes have come. -/
theorem readLoop_fits (p : Pack) (rest : List UInt8) (received nextLen : Nat) (results : List Nat)
    (missing : received < p.size) (headers : received < 8 → headerBytes received results ≤ p.size)
    (asks : 8 ≤ received → nextLen ≤ p.size - received) (enough : results.sum = p.size - received + rest.length)
    (possible : readLoop (Bytes.filled (p.serialize.take received) 0) nextLen (p.serialize.drop received ++ rest)
      results ≠ .impossible) :
    ∃ results', readLoop (Bytes.filled (p.serialize.take received) 0) nextLen (p.serialize.drop received ++ rest)
      results = .returned (Bytes.filled p.serialize 0) results' rest := by
  have lower := p.head_le_size
  induction results generalizing received nextLen with
  | nil =>
    rw [List.sum_nil] at enough
    omega
  | cons readn results ih =>
    have accepted : ¬ (readn = 0 ∨ nextLen < readn ∨ (p.serialize.drop received ++ rest).length < readn) := by
      intro refused
      rw [readLoop, if_pos refused] at possible
      exact possible rfl
    have inside : received + readn ≤ p.size := by
      by_cases header : 8 ≤ received
      · have bound := asks header
        omega
      · have bound := headers (by omega)
        rw [headerBytes] at bound
        split at bound <;> omega
    have step := readLoop_piece p rest received nextLen readn results (by omega) (by omega) inside
    rw [step] at possible ⊢
    by_cases last : received + readn = p.size
    · rw [if_pos last]
      exact ⟨results, rfl⟩
    · rw [if_neg last] at possible ⊢
      rw [List.sum_cons] at enough
      refine ih _ _ (by omega) ?_ ?_ (by omega) possible
      · intro short
        have bound := headers (by omega)
        rw [headerBytes, if_neg (by omega)] at bound
        exact bound
      · intro header
        rw [if_pos header]
        exact Nat.min_le_left _ _

/-- A call that returns has used at least the pieces that complete the header. By induction on
the pieces: before eight bytes are there the call cannot return. -/
theorem readLoop_header (buf : List UInt8) (nextLen : Nat) (stream : List UInt8) (results : List Nat) (pack' : Bytes)
    (results' : List Nat) (stream' : List UInt8) (short : buf.length < 8) (asks : nextLen ≤ 8)
    (returned : readLoop (Bytes.filled buf 0) nextLen stream results = .returned pack' results' stream') :
    headerBytes buf.length results + stream'.length ≤ buf.length + stream.length := by
  induction results generalizing buf nextLen stream with
  | nil => cases returned
  | cons readn results ih =>
    rw [readLoop] at returned
    split at returned
    · cases returned
    · rename_i accepted
      have taken : (stream.take readn).length = readn := by
        rw [List.length_take]
        omega
      have grown : (buf ++ stream.take readn).length = buf.length + readn := by
        rw [List.length_append, taken]
      have stored : (Bytes.filled (buf ++ stream.take readn) 0).size.toNat = buf.length + readn := by
        rw [Bytes.size]
        exact (word_toNat _ (by rw [Bytes.filled, grown]; omega)).trans grown
      rw [Bytes.putBytes_filled _ _ _ (by omega)] at returned
      dsimp only at returned
      rw [stored] at returned
      rw [headerBytes]
      by_cases header : 8 ≤ buf.length + readn
      · rw [if_pos header]
        rw [if_pos header] at returned
        have left : stream'.length ≤ (stream.drop readn).length := by
          split at returned
          · obtain ⟨_, _, rfl⟩ := Recv.returned.inj returned
            exact Nat.le_refl _
          · obtain ⟨used, _, behind, _⟩ := readLoop_used _ _ _ _ _ _ _ returned
            rw [behind, List.length_drop]
            exact Nat.sub_le _ _
        rw [List.length_drop] at left
        omega
      · rw [if_neg header]
        rw [if_neg header] at returned
        have later := ih (buf ++ stream.take readn) (8 - readn) (stream.drop readn) (by omega) (by omega) returned
        rw [grown, List.length_drop] at later
        omega

/-- The pieces behind the bytes of some pieces. -/
theorem piecesBehind_append (used pieces : List Nat) (positive : ∀ piece ∈ used, 0 < piece) :
    piecesBehind used.sum (used ++ pieces) = pieces := by
  induction used with
  | nil =>
    cases pieces with
    | nil => rfl
    | cons piece pieces => exact if_pos rfl
  | cons piece used ih =>
    have first := positive piece List.mem_cons_self
    rw [List.cons_append, piecesBehind, List.sum_cons, if_neg (by omega), Nat.add_sub_cancel_left]
    exact ih fun piece member => positive piece (List.mem_cons_of_mem _ member)

/-- What a call that returns a packet has used. The pieces it has read add up to the size of the
packet. -/
theorem recv_used {p : Pack} {results results' : List Nat} {stream stream' : List UInt8} {pack : Bytes}
    (returned : recv results stream = .returned pack results' stream') (split : stream = p.serialize ++ stream') :
    headerBytes 0 results ≤ p.size ∧ piecesBehind p.size results = results' ∧ results.sum = p.size + results'.sum := by
  have length := congrArg List.length split
  rw [List.length_append, Pack.serialize_length] at length
  have header := readLoop_header [] 8 stream results _ _ _ (by decide) (Nat.le_refl 8) returned
  rw [List.length_nil] at header
  obtain ⟨used, pieces, behind, bound, positive⟩ := readLoop_used _ _ _ _ _ _ _ returned
  have count : used.sum = p.size := by
    have left := congrArg List.length behind
    rw [List.length_drop] at left
    omega
  refine ⟨by omega, ?_, ?_⟩
  · rw [pieces, ← count]
    exact piecesBehind_append used results' positive
  · rw [pieces, List.sum_append, count]

/-- Packets are received exactly when the pieces in which their headers come do not exceed
them. By induction on the packets: a call that returns the first one leaves the pieces behind
it, for which the others' condition is the same. -/
theorem delivers_encoded_iff (packs : List Pack) (results : List Nat)
    (whole : results.sum = (Pack.encodeAll packs).length)
    (possible : Possible packs.length results (Pack.encodeAll packs)) :
    Delivers packs results (Pack.encodeAll packs) ↔ HeadersFit packs results := by
  induction packs generalizing results with
  | nil => exact ⟨fun _ => trivial, fun _ => trivial⟩
  | cons p packs ih =>
    have lower := p.head_le_size
    rw [Pack.encodeAll_cons] at whole possible ⊢
    rw [List.length_append, Pack.serialize_length] at whole
    constructor
    · rintro ⟨results', stream', returned, split, rest⟩
      obtain rfl : Pack.encodeAll packs = stream' := List.append_cancel_left split
      obtain ⟨header, behind, count⟩ := recv_used returned split
      refine ⟨header, ?_⟩
      rw [behind]
      simp only [List.length_cons, Possible, returned] at possible
      exact (ih results' (by omega) possible).mp rest
    · rintro ⟨header, rest⟩
      have possible' : recv results (p.serialize ++ Pack.encodeAll packs) ≠ .impossible := by
        intro refused
        simp only [List.length_cons, Possible, refused] at possible
      obtain ⟨results', returned⟩ := readLoop_fits p (Pack.encodeAll packs) 0 8 results (by omega)
        (fun _ => header) (fun impossible => absurd impossible (by decide)) (by omega) possible'
      have returned' : recv results (p.serialize ++ Pack.encodeAll packs) =
          .returned (Bytes.filled p.serialize 0) results' (Pack.encodeAll packs) := returned
      obtain ⟨_, behind, count⟩ := recv_used returned' rfl
      refine ⟨results', _, returned', rfl, ?_⟩
      simp only [List.length_cons, Possible, returned'] at possible
      rw [behind] at rest
      exact (ih results' (by omega) possible).mpr rest

/-- Packets sent with any partial results of `::send`, and received with any results of
`::recv`: successive calls of `recv` return exactly these packets if and only if the pieces in
which their headers come do not exceed them.

Proof: `send` puts the bytes on the wire whatever its results are. `read_` asks for eight
bytes until it has them and then for what the length word says, so a boundary is lost only
when the pieces of a header bring bytes from behind their packet. By induction on the
packets, with the results that each call uses up. -/
theorem delivers_iff (sends : List (Pack × List SendResult)) (results : List Nat)
    (accepted : ∀ s ∈ sends, Sends s.2 s.1.size)
    (whole : results.sum = (Pack.encodeAll (sends.map Prod.fst)).length)
    (possible : Possible sends.length results (Pack.encodeAll (sends.map Prod.fst))) :
    ∃ wire, sendAll sends = some wire ∧
      (Delivers (sends.map Prod.fst) results wire ↔ HeadersFit (sends.map Prod.fst) results) := by
  refine ⟨_, sendAll_eq sends accepted, delivers_encoded_iff (sends.map Prod.fst) results whole ?_⟩
  rw [List.length_map]
  exact possible

/-- A packet without a body. -/
def emptyPack : Pack := ⟨0, 2000, [], by decide⟩

/-- Two of them are sent in parts, and their headers come in one and in two pieces. -/
theorem delivers_two : ∃ wire,
    sendAll [(emptyPack, [.wrote 5, .interrupted, .wrote 3]), (emptyPack, [.wrote 8])] = some wire ∧
      (Delivers [emptyPack, emptyPack] [8, 3, 5] wire ↔ HeadersFit [emptyPack, emptyPack] [8, 3, 5]) :=
  delivers_iff [(emptyPack, [.wrote 5, .interrupted, .wrote 3]), (emptyPack, [.wrote 8])] [8, 3, 5] (by
    intro s member
    rcases List.mem_cons.mp member with rfl | member
    · exact ⟨rfl, fun writed there => by simp at there; omega⟩
    · obtain rfl := List.mem_singleton.mp member
      exact ⟨rfl, fun writed there => by simp at there; omega⟩) (by decide) (by decide +kernel)

/-- A header in three pieces, the last of which takes four bytes of the next packet. The first
call then waits for a byte that does not come. -/
theorem header_in_three : ¬ ∀ (sends : List (Pack × List SendResult)) (results : List Nat),
    (∀ s ∈ sends, Sends s.2 s.1.size) → results.sum = (Pack.encodeAll (sends.map Prod.fst)).length →
    Possible sends.length results (Pack.encodeAll (sends.map Prod.fst)) →
    ∃ wire, sendAll sends = some wire ∧ Delivers (sends.map Prod.fst) results wire := by
  intro always
  obtain ⟨wire, sent, results', stream', returned, _⟩ := always
    [(emptyPack, [.wrote 8]), (emptyPack, [.wrote 8])] [4, 3, 5, 4] (by
      intro s member
      rcases List.mem_cons.mp member with rfl | member
      · exact ⟨rfl, fun writed there => by simp at there; omega⟩
      · obtain rfl := List.mem_singleton.mp member
        exact ⟨rfl, fun writed there => by simp at there; omega⟩) (by decide) (by decide +kernel)
  have waits : ∀ wire, sendAll [(emptyPack, [.wrote 8]), (emptyPack, [.wrote 8])] = some wire →
      recv [4, 3, 5, 4] wire = .waiting := by
    intro wire sent
    obtain rfl : Pack.encodeAll [emptyPack, emptyPack] = wire := Option.some.inj (Eq.trans (by decide +kernel) sent)
    decide +kernel
  rw [waits wire sent] at returned
  cases returned

end Naruto.Connection
